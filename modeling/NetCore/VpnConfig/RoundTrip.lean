import NetCore.VpnConfig

/-!
# Writing the rules and reading them back

The two delimiters are not escaped: a map comes back from its string exactly if no target in it has
one of them.
-/

namespace NetCore

namespace VpnConfig

open Lib (LinkedMap)

-- A target without delimiters.
def Plain (target : JString) : Prop := ':' ∉ target ∧ ';' ∉ target

/-! ## Splitting -/

theorem not_mem_splitOn {sep : Char} {s piece : JString} (h : piece ∈ s.splitOn sep) :
    sep ∉ piece ∧ ∀ c ∈ piece, c ∈ s := by
  induction s generalizing piece with
  | nil =>
    rw [List.splitOn_nil, List.mem_singleton] at h
    rw [h]
    exact ⟨List.not_mem_nil, fun c hc => hc⟩
  | cons c s ih =>
    rw [List.splitOn_cons_eq_if_modifyHead] at h
    split at h
    next hc =>
      rcases List.mem_cons.mp h with rfl | h
      · exact ⟨List.not_mem_nil, fun c hc => absurd hc List.not_mem_nil⟩
      · exact ⟨(ih h).1, fun c hc => List.mem_cons_of_mem _ ((ih h).2 c hc)⟩
    next hc =>
      -- the first piece takes `c`, the others stay
      cases hs : s.splitOn sep with
      | nil => exact absurd hs (List.splitOn_ne_nil sep s)
      | cons first rest =>
        rw [hs, List.modifyHead_cons] at h
        rw [hs] at ih
        rcases List.mem_cons.mp h with rfl | h
        · obtain ⟨hsep, hsub⟩ := ih List.mem_cons_self
          refine ⟨fun hmem => ?_, fun d hd => ?_⟩
          · rcases List.mem_cons.mp hmem with heq | hmem
            · exact hc (by simp [heq])
            · exact hsep hmem
          · rcases List.mem_cons.mp hd with rfl | hd
            · exact List.mem_cons_self
            · exact List.mem_cons_of_mem _ (hsub d hd)
        · obtain ⟨hsep, hsub⟩ := ih (List.mem_cons_of_mem _ h)
          exact ⟨hsep, fun d hd => List.mem_cons_of_mem _ (hsub d hd)⟩

theorem not_mem_split {sep : Char} {s piece : JString} (h : piece ∈ split sep s) :
    sep ∉ piece ∧ ∀ c ∈ piece, c ∈ s := by
  unfold split at h
  split at h
  · exact not_mem_splitOn ((List.rdropWhile_prefix _ _).subset h)
  next hsep =>
    rw [List.mem_singleton.mp h]
    exact ⟨hsep, fun c hc => hc⟩

-- Two pieces, the second not empty.
theorem split_pair {sep : Char} {x y : JString} (hx : sep ∉ x) (hy : sep ∉ y) (hne : y ≠ []) :
    split sep (x ++ sep :: y) = [x, y] := by
  have hpieces : (x ++ sep :: y).splitOn sep = [x, y] := by
    rw [List.splitOn_append_cons_self, List.splitOn_eq_singleton hx, List.splitOn_eq_singleton hy]
    rfl
  unfold split
  rw [if_pos (List.mem_append_right x List.mem_cons_self), hpieces]
  exact List.rdropWhile_concat_neg (fun z : JString => decide (z = [])) [x] y (by simpa using hne)

-- Pieces that each end with the separator.
theorem split_pieces {sep : Char} {pieces : List JString} (hne : pieces ≠ [])
    (hpieces : ∀ piece ∈ pieces, sep ∉ piece ∧ piece ≠ []) :
    split sep (pieces.flatMap fun piece => piece ++ [sep]) = pieces := by
  have hsplit : (pieces.flatMap fun piece => piece ++ [sep]).splitOn sep = pieces ++ [[]] := by
    clear hne
    induction pieces with
    | nil => exact List.splitOn_nil sep
    | cons piece pieces ih =>
      obtain ⟨hpiece, hrest⟩ := List.forall_mem_cons.mp hpieces
      rw [List.flatMap_cons, List.append_assoc, List.singleton_append, List.splitOn_append_cons_self,
        List.splitOn_eq_singleton hpiece.1, ih hrest]
      rfl
  have hmem : sep ∈ pieces.flatMap fun piece => piece ++ [sep] := by
    obtain ⟨piece, hpiece⟩ := List.exists_mem_of_ne_nil pieces hne
    exact List.mem_flatMap.mpr ⟨piece, hpiece, List.mem_append_right _ (List.mem_singleton_self _)⟩
  unfold split
  rw [if_pos hmem, hsplit, List.rdropWhile_concat_pos _ _ _ (by simp)]
  apply List.rdropWhile_eq_self_iff.mpr
  intro hl
  simpa using (hpieces _ (List.getLast_mem hl)).2

/-! ## One map -/

/-- The values are those of `AVAIL_CTRLS`. -/
def Controls (ctrls : CtrlMap) : Prop := ∀ entry ∈ ctrls.entries, ∃ c : AvailCtrls, entry.2 = c.ctrls

theorem controls_empty : Controls .empty := fun _ h => absurd h List.not_mem_nil

theorem Controls.updateMap {ctrls : CtrlMap} (h : Controls ctrls) (target : JString)
    (ctrl : Option AvailCtrls) : Controls (updateMap target ctrl ctrls).1 := by
  have hput (c : AvailCtrls) : Controls (ctrls.put target c.ctrls) := by
    intro entry hentry
    rcases LinkedMap.mem_put hentry with rfl | hold
    · exact ⟨c, rfl⟩
    · exact h entry hold
  unfold VpnConfig.updateMap
  split
  · exact fun entry hentry => h entry (LinkedMap.mem_remove hentry)
  · split
    · exact hput _
    · exact h
  · exact hput _
  · exact h

theorem Controls.apply {ctrls : CtrlMap} (h : Controls ctrls) (type : CtrlType) (u : Update) :
    Controls (u.apply type ctrls).1 := by
  unfold Update.apply
  split
  · split
    · exact h.updateMap _ _
    · exact h
  · exact h

theorem Controls.updated {ctrls : CtrlMap} (h : Controls ctrls) (type : CtrlType) (us : List Update) :
    Controls (updated type ctrls us) := by
  induction us generalizing ctrls with
  | nil => exact h
  | cons u us ih => exact ih (h.apply type u)

-- The text of a control, and what `Integer.valueOf` makes of it.
theorem ctrls_text (c : AvailCtrls) :
    ':' ∉ (toString c.ctrls).toList ∧ ';' ∉ (toString c.ctrls).toList ∧
      (toString c.ctrls).toList ≠ [] ∧ integerValueOf (toString c.ctrls).toList = some c.ctrls := by
  cases c <;> decide

-- An entry without its final delimiter.
def entryText (entry : JString × Int) : JString := entry.1 ++ ':' :: (toString entry.2).toList

theorem serializeCtrls_eq (ctrls : CtrlMap) :
    serializeCtrls ctrls = (ctrls.entries.map entryText).flatMap fun piece => piece ++ [';'] := by
  unfold serializeCtrls
  rw [List.flatMap_map]
  refine congrArg (fun f => ctrls.entries.flatMap f) (funext fun entry => ?_)
  simp [serializeCtrl, entryText]

theorem parseCtrl_entryText (result : CtrlMap) {entry : JString × Int} (hplain : Plain entry.1)
    (hvalue : ∃ c : AvailCtrls, entry.2 = c.ctrls) :
    parseCtrl result (entryText entry) = result.put entry.1 entry.2 := by
  obtain ⟨c, hc⟩ := hvalue
  obtain ⟨hcolon, -, hne, hvalue⟩ := ctrls_text c
  unfold parseCtrl entryText
  rw [hc, split_pair hplain.1 hcolon hne]
  simp only [hvalue]

theorem parse_serialize {ctrls : CtrlMap} (hcontrols : Controls ctrls)
    (hplain : ∀ key ∈ ctrls.keys, Plain key) :
    parseCtrls .empty (serializeCtrls ctrls) = ctrls := by
  have hkey (entry : JString × Int) (h : entry ∈ ctrls.entries) : Plain entry.1 :=
    hplain entry.1 (List.mem_map_of_mem h)
  have hloop (entries : List (JString × Int)) (hentries : ∀ entry ∈ entries, entry ∈ ctrls.entries)
      (result : CtrlMap) :
      (entries.map entryText).foldl parseCtrl result = result.putAll entries := by
    induction entries generalizing result with
    | nil => rfl
    | cons entry entries ih =>
      obtain ⟨hentry, hrest⟩ := List.forall_mem_cons.mp hentries
      rw [List.map_cons, List.foldl_cons, parseCtrl_entryText result (hkey entry hentry)
        (hcontrols entry hentry), ih hrest]
      rfl
  by_cases hnil : ctrls.entries = []
  · have hempty : ctrls = .empty := LinkedMap.ext_entries hnil
    rw [hempty]
    rfl
  · have hpieces : ∀ piece ∈ ctrls.entries.map entryText, ';' ∉ piece ∧ piece ≠ [] := by
      intro piece hpiece
      obtain ⟨entry, hentry, rfl⟩ := List.mem_map.mp hpiece
      obtain ⟨c, hc⟩ := hcontrols entry hentry
      refine ⟨?_, List.append_ne_nil_of_right_ne_nil _ (List.cons_ne_nil _ _)⟩
      unfold entryText
      rw [List.mem_append, List.mem_cons, hc]
      rintro (hmem | hmem | hmem)
      · exact (hkey entry hentry).2 hmem
      · exact absurd hmem (by decide)
      · exact (ctrls_text c).2.1 hmem
    have hne : ctrls.entries.map entryText ≠ [] := by simpa using hnil
    have htext : serializeCtrls ctrls ≠ [] := by
      rw [serializeCtrls_eq]
      obtain ⟨piece, hpiece⟩ := List.exists_mem_of_ne_nil _ hne
      intro hempty
      have hmem : ';' ∈ (ctrls.entries.map entryText).flatMap fun piece => piece ++ [';'] :=
        List.mem_flatMap.mpr
          ⟨piece, hpiece, List.mem_append_right _ (List.mem_singleton_self _)⟩
      rw [hempty] at hmem
      cases hmem
    unfold parseCtrls
    rw [if_neg htext, serializeCtrls_eq, split_pieces hne hpieces,
      hloop ctrls.entries (fun _ h => h) .empty]
    exact LinkedMap.putAll_empty ctrls

-- Whatever is read, no target has a delimiter.
theorem parseCtrls_plain (value : JString) : ∀ key ∈ (parseCtrls .empty value).keys, Plain key := by
  have hround (result : CtrlMap) (s : JString) (hs : ';' ∉ s) (h : ∀ key ∈ result.keys, Plain key) :
      ∀ key ∈ (parseCtrl result s).keys, Plain key := by
    unfold parseCtrl
    split
    next key value _ hsplit =>
      split
      · intro key' hkey'
        obtain ⟨entry, hentry, rfl⟩ := List.mem_map.mp hkey'
        rcases LinkedMap.mem_put hentry with rfl | hold
        · have hpiece := not_mem_split (hsplit ▸ List.mem_cons_self : key ∈ split ':' s)
          exact ⟨hpiece.1, fun hmem => hs (hpiece.2 _ hmem)⟩
        · exact h entry.1 (List.mem_map_of_mem hold)
      · exact h
    · exact h
  have hloop (pieces : List JString) (hpieces : ∀ s ∈ pieces, ';' ∉ s) (result : CtrlMap)
      (h : ∀ key ∈ result.keys, Plain key) :
      ∀ key ∈ (pieces.foldl parseCtrl result).keys, Plain key := by
    induction pieces generalizing result with
    | nil => exact h
    | cons s pieces ih =>
      obtain ⟨hs, hrest⟩ := List.forall_mem_cons.mp hpieces
      exact ih hrest _ (hround result s hs h)
  have hempty : ∀ key ∈ (LinkedMap.empty : CtrlMap).keys, Plain key :=
    fun _ h => absurd h List.not_mem_nil
  unfold parseCtrls
  split
  · exact hempty
  · exact hloop _ (fun s hs => (not_mem_split hs).1) _ hempty

theorem rules_survive_iff (type : CtrlType) (us : List Update) :
    parseCtrls .empty (serializeCtrls (updated type .empty us)) = updated type .empty us ↔
      ∀ target ∈ (updated type .empty us).keys, ':' ∉ target ∧ ';' ∉ target := by
  constructor
  · intro hsurvive target htarget
    rw [← hsurvive] at htarget
    exact parseCtrls_plain _ target htarget
  · exact fun hplain => parse_serialize (controls_empty.updated type us) hplain

/-- A rule for an IPv6 address is lost. -/
theorem rules_lost :
    parseCtrls .empty (serializeCtrls (updated .ip .empty
        [⟨some .ip, some [':', ':', '1'], some .proxy⟩])) ≠
      updated .ip .empty [⟨some .ip, some [':', ':', '1'], some .proxy⟩] := by
  decide

end VpnConfig

end NetCore
