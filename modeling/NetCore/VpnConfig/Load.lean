import NetCore.VpnConfig.RoundTrip

/-!
# Loading the rules while they are updated

`updateCtrl` writes the whole map at hand.  Before `onConfigLoadSucc` has run that map does not hold
what was stored; afterwards every change is stored behind the ones before it.
-/

namespace NetCore

namespace VpnConfig

open Lib (LinkedMap)

/-- `init` has been called; `p` are the rules in the preferences. -/
structure Started (p : CtrlType → CtrlMap) (s : VpnConfig) : Prop where
  ctrls : ∀ type, s.ctrls type = .empty
  stored : ∀ type, s.sSP type = serializeCtrls (p type)
  background : s.background = [.loadConfig]
  main : s.main = []

def updates (es : List Event) : List Update :=
  es.filterMap fun e =>
    match e with
    | .updateCtrl u => some u
    | _ => none

-- What the preferences hold once these tasks have run.
def storedAfter (tasks : List Task) (type : CtrlType) (value : JString) : JString :=
  tasks.foldl (fun value task =>
    match task with
    | .saveConfig type' value' => if type' = type then value' else value
    | .loadConfig => value) value

/-- `updateCtrl` is called only when `onConfigLoadSucc` has run. -/
def Published (s : VpnConfig) : Event → Prop
  | .updateCtrl _ => .loadConfig ∉ s.background ∧ .onConfigLoadSucc ∉ s.main
  | _ => True

-- How far the loading is, with the calls made so far.
inductive Progress (p : CtrlType → CtrlMap) (us : List Update) (s : VpnConfig) : Prop where
  | scheduled (hbackground : s.background = [.loadConfig]) (hmain : s.main = []) (hus : us = [])
      (hstored : ∀ type, s.sSP type = serializeCtrls (p type))
  | loaded (hbackground : s.background = []) (hmain : s.main = [.onConfigLoadSucc]) (hus : us = [])
      (hstored : ∀ type, s.sSP type = serializeCtrls (p type))
      (hread : ∀ type, s.sConfigs type = some (serializeCtrls (p type)))
  | published (hbackground : .loadConfig ∉ s.background) (hmain : .onConfigLoadSucc ∉ s.main)
      (hctrls : ∀ type, s.ctrls type = updated type (p type) us)
      (hstored : ∀ type, storedAfter s.background type (s.sSP type) = serializeCtrls (s.ctrls type))

variable {p : CtrlType → CtrlMap} {us : List Update} {s : VpnConfig}

theorem updateMap_unsaved {target : JString} {ctrl : Option AvailCtrls} {ctrls : CtrlMap}
    (h : (updateMap target ctrl ctrls).2 = false) : (updateMap target ctrl ctrls).1 = ctrls := by
  unfold updateMap at *
  split at h
  · cases h
  · split at h
    · cases h
    next heq => rw [if_neg heq]
  · cases h
  · rfl

-- A map that is not saved is as it was.
theorem apply_unsaved {type : CtrlType} {ctrls : CtrlMap} {u : Update}
    (h : (u.apply type ctrls).2 = false) : (u.apply type ctrls).1 = ctrls := by
  unfold Update.apply at *
  split at h
  · split at h
    next hsame =>
      rw [if_pos hsame]
      exact updateMap_unsaved h
    next hother => rw [if_neg hother]
  · rfl

-- A call leaves the other maps alone.
theorem apply_other {type : CtrlType} {ctrls : CtrlMap} {u : Update} (h : u.type ≠ some type) :
    (u.apply type ctrls).1 = ctrls := by
  unfold Update.apply
  split
  · rw [if_neg h]
  · rfl

theorem updated_snoc (type : CtrlType) (ctrls : CtrlMap) (us : List Update) (u : Update) :
    updated type ctrls (us ++ [u]) = (u.apply type (updated type ctrls us)).1 := by
  unfold updated
  rw [List.foldl_append]
  rfl

theorem storedAfter_cons (tasks : List Task) (type type' : CtrlType) (value value' : JString) :
    storedAfter (.saveConfig type' value' :: tasks) type value =
      storedAfter tasks type (if type' = type then value' else value) := rfl

theorem storedAfter_snoc (tasks : List Task) (type type' : CtrlType) (value value' : JString) :
    storedAfter (tasks ++ [.saveConfig type' value']) type value =
      if type' = type then value' else storedAfter tasks type value := by
  unfold storedAfter
  rw [List.foldl_append]
  rfl

theorem Progress.updateCtrl (h : Progress p us s) {u : Update} (hpub : Published s (.updateCtrl u)) :
    Progress p (us ++ [u]) (s.updateCtrl u) := by
  cases h with
  | scheduled hbackground => exact absurd (hbackground ▸ List.mem_singleton_self _) hpub.1
  | loaded _ hmain => exact absurd (hmain ▸ List.mem_singleton_self _) hpub.2
  | published hbackground hmain hctrls hstored =>
    cases htype : u.type with
    | none =>
      have hsame : s.updateCtrl u = s := by
        unfold VpnConfig.updateCtrl
        rw [htype]
      rw [hsame]
      refine .published hbackground hmain (fun type => ?_) hstored
      rw [updated_snoc, ← hctrls, apply_other (by rw [htype]; exact fun hnone => nomatch hnone)]
    | some type =>
      unfold VpnConfig.updateCtrl
      rw [htype]
      refine .published ?_ hmain (fun type' => ?_) (fun type' => ?_)
      · simp only
        split
        · simp [hbackground]
        · exact hbackground
      · rw [updated_snoc, ← hctrls]
        by_cases heq : type' = type
        · subst heq
          exact Function.update_self ..
        · rw [apply_other (by rw [htype]; exact fun hsome => heq (Option.some.inj hsome).symm)]
          exact Function.update_of_ne heq ..
      · -- the map of the call is stored last, the other two as before
        by_cases heq : type' = type
        · subst heq
          simp only [Function.update_self]
          cases hsave : (u.apply type' (s.ctrls type')).2 with
          | true => rw [if_pos rfl, storedAfter_snoc, if_pos rfl]
          | false =>
            rw [if_neg (by decide), apply_unsaved hsave]
            exact hstored type'
        · simp only [Function.update_of_ne heq]
          split
          · rw [storedAfter_snoc, if_neg (Ne.symm heq)]
            exact hstored type'
          · exact hstored type'

theorem Progress.background (h : Progress p us s) {s' : VpnConfig} (hstep : s.step .background = some s') :
    Progress p us s' := by
  unfold VpnConfig.step at hstep
  simp only at hstep
  cases h with
  | scheduled hbackground hmain hus hstored =>
    rw [hbackground] at hstep
    cases hstep
    refine .loaded rfl ?_ hus hstored fun type => congrArg some (hstored type)
    show s.main ++ [_] = _
    rw [hmain]
    rfl
  | loaded hbackground =>
    rw [hbackground] at hstep
    cases hstep
  | published hbackground hmain hctrls hstored =>
    cases htasks : s.background with
    | nil =>
      rw [htasks] at hstep
      cases hstep
    | cons task rest =>
      rw [htasks] at hstep hbackground hstored
      cases hstep
      cases task with
      | loadConfig => exact absurd List.mem_cons_self hbackground
      | saveConfig type value =>
        refine .published (fun hmem => hbackground (List.mem_cons_of_mem _ hmem)) ?_ hctrls
          fun type' => ?_
        · show .onConfigLoadSucc ∉ s.main ++ [_]
          simp [hmain]
        · have hnext := hstored type'
          rw [storedAfter_cons] at hnext
          show storedAfter rest type' (Function.update s.sSP type value type') = _
          by_cases heq : type' = type
          · subst heq
            rw [if_pos rfl] at hnext
            rwa [Function.update_self]
          · rw [if_neg (Ne.symm heq)] at hnext
            rwa [Function.update_of_ne heq]

theorem Progress.main (hcontrols : ∀ type, Controls (p type))
    (hplain : ∀ type, ∀ key ∈ (p type).keys, Plain key) (h : Progress p us s) {s' : VpnConfig}
    (hstep : s.step .main = some s') : Progress p us s' := by
  unfold VpnConfig.step at hstep
  simp only at hstep
  cases h with
  | scheduled _ hmain =>
    rw [hmain] at hstep
    cases hstep
  | loaded hbackground hmain hus hstored hread =>
    rw [hmain] at hstep
    cases hstep
    have hctrls (type : CtrlType) : parseCtrls .empty ((s.sConfigs type).getD []) = p type := by
      rw [hread, Option.getD_some]
      exact parse_serialize (hcontrols type) (hplain type)
    have hempty : Task.loadConfig ∉ s.background := by
      rw [hbackground]
      exact List.not_mem_nil
    refine .published hempty List.not_mem_nil (fun type => ?_) fun type => ?_
    · rw [hus]
      exact hctrls type
    · show storedAfter s.background type (s.sSP type) = serializeCtrls (parseCtrls _ _)
      rw [hctrls, hbackground]
      exact hstored type
  | published hbackground hmain hctrls hstored =>
    cases hposted : s.main with
    | nil =>
      rw [hposted] at hstep
      cases hstep
    | cons posted rest =>
      rw [hposted] at hstep hmain
      cases hstep
      cases posted with
      | onConfigLoadSucc => exact absurd List.mem_cons_self hmain
      | onConfigSaveSucc type value =>
        exact .published hbackground (fun hmem => hmain (List.mem_cons_of_mem _ hmem)) hctrls hstored

theorem rules_kept {s' : VpnConfig} {es : List Event} (hcontrols : ∀ type, Controls (p type))
    (hplain : ∀ type, ∀ key ∈ (p type).keys, ':' ∉ key ∧ ';' ∉ key) (hstart : Started p s)
    (hpub : Lib.Along step Published s es) (hrun : Lib.run step s es = some s')
    (hbackground : s'.background = []) (hmain : s'.main = []) (type : CtrlType) :
    s'.ctrls type = updated type (p type) (updates es) ∧
      s'.sSP type = serializeCtrls (s'.ctrls type) := by
  have hprogress : Progress p (updates es) s' := by
    refine Lib.Along.history (fun past s => Progress p (updates past) s) ?_ [] ?_ hpub hrun
    · intro past s e t h hcond hstep
      have hpast : updates (past ++ [e]) = updates past ++ updates [e] := List.filterMap_append
      rw [hpast]
      cases e with
      | updateCtrl u =>
        cases hstep
        exact h.updateCtrl hcond
      | background =>
        show Progress p (updates past ++ []) t
        rw [List.append_nil]
        exact h.background hstep
      | main =>
        show Progress p (updates past ++ []) t
        rw [List.append_nil]
        exact h.main hcontrols hplain hstep
    · exact .scheduled hstart.background hstart.main rfl hstart.stored
  cases hprogress with
  | scheduled hscheduled =>
    rw [hbackground] at hscheduled
    cases hscheduled
  | loaded _ hloaded =>
    rw [hmain] at hloaded
    cases hloaded
  | published _ _ hctrls hstored =>
    rw [hbackground] at hstored
    exact ⟨hctrls type, hstored type⟩

def sampleRules : CtrlType → CtrlMap
  | .ip => LinkedMap.empty.put ['a'] 3
  | _ => .empty

def sampleConfig : VpnConfig where
  ctrls _ := .empty
  sConfigs _ := none
  sSP type := serializeCtrls (sampleRules type)
  background := [.loadConfig]
  main := []

theorem sampleRules_controls (type : CtrlType) : Controls (sampleRules type) := by
  cases type with
  | ip =>
    intro entry hentry
    obtain rfl | hnone := LinkedMap.mem_put hentry
    · exact ⟨.proxy, rfl⟩
    · cases hnone
  | app | domain => exact controls_empty

theorem sampleConfig_started : Started sampleRules sampleConfig :=
  ⟨fun _ => rfl, fun _ => rfl, rfl, rfl⟩

def sampleUpdate : Event := .updateCtrl ⟨some .ip, some ['b'], some .capture⟩

theorem rules_kept_sample :
    ∃ s', Lib.run step sampleConfig [.background, .main, sampleUpdate, .background, .main] = some s' ∧
      (s'.ctrls .ip).entries = [(['a'], 3), (['b'], 9)] ∧
      s'.sSP .ip = serializeCtrls (s'.ctrls .ip) := by
  have hplain : ∀ type, ∀ key ∈ (sampleRules type).keys, ':' ∉ key ∧ ';' ∉ key := by
    intro type
    cases type <;> decide
  have hpub : Lib.Along step Published sampleConfig
      [.background, .main, sampleUpdate, .background, .main] :=
    ⟨trivial, trivial, ⟨by decide, by decide⟩, trivial, trivial, trivial⟩
  have hrun : Lib.run step sampleConfig [.background, .main, sampleUpdate, .background, .main] =
    some _ := rfl
  obtain ⟨hctrls, hstored⟩ := rules_kept sampleRules_controls hplain sampleConfig_started hpub hrun
    rfl rfl .ip
  refine ⟨_, hrun, ?_, hstored⟩
  rw [hctrls]
  decide

/-- The same call before the load is published: the change is lost in memory, and what was stored is
    lost in the preferences. -/
theorem rules_overwritten :
    ∃ s', Lib.run step sampleConfig [sampleUpdate, .background, .background, .main, .main] = some s' ∧
      s'.background = [] ∧ s'.main = [] ∧
      (s'.ctrls .ip).entries = [(['a'], 3)] ∧ s'.sSP .ip = ['b', ':', '9', ';'] ∧
      (updated .ip (sampleRules .ip) (updates [sampleUpdate])).entries = [(['a'], 3), (['b'], 9)] := by
  exact ⟨_, rfl, rfl, rfl, by decide, by decide, by decide⟩

end VpnConfig

end NetCore
