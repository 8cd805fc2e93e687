import NetCore.EventDispatcher

/-!
# Each handler gets each event once

For a handler that stays registered, what it has got and what it is still to get grows by the events
that are dispatched, and by nothing else: no event is lost, doubled or overtaken, whoever else comes
and goes.  It ends when the cell is erased that the loop stands at.
-/

namespace NetCore

namespace EventDispatcher

variable {δ η : Type} [DecidableEq η] {d d' : EventDispatcher δ η} {ids : List Int} {h : η}

-- The lists are lists of different handlers in different cells.
structure Sound (d : EventDispatcher δ η) : Prop where
  cells (id : Int) : ((d.handlers id).map Node.cell).Nodup
  distinct (id : Int) : ((d.handlers id).map Node.handler).Nodup
  next {id : Int} {node : Node η} : node ∈ d.handlers id → node.cell < d.next

/-- The event the loop is busy with, and the cell its iterator stands at. -/
def spot (d : EventDispatcher δ η) : Option (Event δ × Nat) :=
  match d.mThread with
  | .visiting event (some iter) => some (event, iter)
  | .returned event iter => some (event, iter)
  | _ => none

structure InPlace (d : EventDispatcher δ η) : Prop where
  cell {event : Event δ} {iter : Nat} :
    d.spot = some (event, iter) → iter ∈ (d.handlers event.id).map Node.cell
  sane (event : Event δ) : d.mThread ≠ .dangling event

/-- The move erases the cell the loop stands at. -/
def Cuts (d : EventDispatcher δ η) : Move δ η → Prop
  | .unregisterEvent id (some h) =>
      ∃ spot ∈ d.spot, spot.1.id = id ∧ ⟨spot.2, h⟩ ∈ d.handlers id
  | _ => False

instance (d : EventDispatcher δ η) : (m : Move δ η) → Decidable (d.Cuts m)
  | .unregisterEvent _ (some _) => inferInstanceAs (Decidable (∃ spot ∈ d.spot, _ ∧ _))
  | .unregisterEvent _ none => inferInstanceAs (Decidable False)
  | .dispatch _ => inferInstanceAs (Decidable False)
  | .dispatchSync _ => inferInstanceAs (Decidable False)
  | .registerEvent _ _ => inferInstanceAs (Decidable False)
  | .stop => inferInstanceAs (Decidable False)
  | .proceed => inferInstanceAs (Decidable False)

def Registered (h : η) (ids : List Int) (d : EventDispatcher δ η) : Prop :=
  ∀ id ∈ ids, h ∈ (d.handlers id).map Node.handler

/-- The event a point tells of, if it is one of `ids` that `h` has got. -/
def Point.gotBy (h : η) (ids : List Int) : Point δ η → List (Event δ)
  | .onEvent handler event => if handler = h ∧ event.id ∈ ids then [event] else []
  | _ => []

def received (h : η) (ids : List Int) (d : EventDispatcher δ η) : List (Event δ) :=
  d.trace.flatMap (Point.gotBy h ids)

/-- The handler's cell is the iterator's or one behind it. -/
def Ahead (h : η) (iter : Nat) (nodes : List (Node η)) : Prop :=
  ∃ node ∈ Lib.onward Node.cell iter nodes, node.handler = h

def Behind (h : η) (iter : Nat) (nodes : List (Node η)) : Prop :=
  ∃ node ∈ Lib.onward Node.cell iter nodes, node.handler = h ∧ node.cell ≠ iter

instance (h : η) (iter : Nat) (nodes : List (Node η)) : Decidable (Ahead h iter nodes) :=
  inferInstanceAs (Decidable (∃ node ∈ _, _))

instance (h : η) (iter : Nat) (nodes : List (Node η)) : Decidable (Behind h iter nodes) :=
  inferInstanceAs (Decidable (∃ node ∈ _, _))

/-- The event of the loop, if the handler is still to get it. -/
def current (h : η) (ids : List Int) (d : EventDispatcher δ η) : List (Event δ) :=
  match d.mThread with
  | .visiting event (some iter) =>
      if event.id ∈ ids ∧ Ahead h iter (d.handlers event.id) then [event] else []
  | .returned event iter =>
      if event.id ∈ ids ∧ Behind h iter (d.handlers event.id) then [event] else []
  | _ => []

def due (h : η) (ids : List Int) (d : EventDispatcher δ η) : List (Event δ) :=
  d.current h ids ++ d.mQueue.filter fun event => event.id ∈ ids

def Move.queued : Move δ η → List (Event δ)
  | .dispatch event => [event]
  | _ => []

/-- The move takes the handler off one of the lists. -/
def Move.Drops (h : η) (ids : List Int) : Move δ η → Prop
  | .unregisterEvent id (some handler) => handler = h ∧ id ∈ ids
  | _ => False

instance (h : η) (ids : List Int) : (m : Move δ η) → Decidable (m.Drops h ids)
  | .unregisterEvent _ (some _) => inferInstanceAs (Decidable (_ ∧ _))
  | .unregisterEvent _ none => inferInstanceAs (Decidable False)
  | .dispatch _ => inferInstanceAs (Decidable False)
  | .dispatchSync _ => inferInstanceAs (Decidable False)
  | .registerEvent _ _ => inferInstanceAs (Decidable False)
  | .stop => inferInstanceAs (Decidable False)
  | .proceed => inferInstanceAs (Decidable False)

/-! ## The lists of handlers -/

omit [DecidableEq η] in
theorem handlers_setHandlers (id : Int) (nodes : List (Node η)) (d : EventDispatcher δ η) (id' : Int) :
    (d.setHandlers id nodes).handlers id' = if id' = id then nodes else d.handlers id' := by
  by_cases hid : id' = id
  · subst hid
    show ((d.mHandlers.insert id' nodes).lookup id').getD [] = _
    rw [AList.lookup_insert, if_pos rfl, Option.getD_some]
  · show ((d.mHandlers.insert id nodes).lookup id').getD [] = _
    rw [AList.lookup_insert_ne hid, if_neg hid]
    rfl

def added (id : Int) (h : η) (d : EventDispatcher δ η) : EventDispatcher δ η :=
  { d.setHandlers id (d.handlers id ++ [⟨d.next, h⟩]) with next := d.next + 1 }

def erased (id : Int) (h : η) (d : EventDispatcher δ η) : EventDispatcher δ η :=
  d.setHandlers id ((d.handlers id).eraseP fun node => node.handler = h)

omit [DecidableEq η] in
theorem handlers_added (id : Int) (h : η) (d : EventDispatcher δ η) (id' : Int) :
    (d.added id h).handlers id' =
      if id' = id then d.handlers id ++ [⟨d.next, h⟩] else d.handlers id' :=
  handlers_setHandlers id _ d id'

theorem handlers_erased (id : Int) (h : η) (d : EventDispatcher δ η) (id' : Int) :
    (d.erased id h).handlers id' =
      if id' = id then (d.handlers id).eraseP fun node => node.handler = h else d.handlers id' :=
  handlers_setHandlers id _ d id'

theorem registerEvent_cases (id : Int) (handler : Option η) (d : EventDispatcher δ η) :
    (d.registerEvent id handler).2 = d ∨
      ∃ h, h ∉ (d.handlers id).map Node.handler ∧ (d.registerEvent id handler).2 = d.added id h := by
  cases handler with
  | none => exact .inl rfl
  | some h =>
    unfold registerEvent
    simp only
    split
    · exact .inl rfl
    next hfound =>
      refine .inr ⟨h, fun hmem => hfound ?_, rfl⟩
      obtain ⟨node, hnode, rfl⟩ := List.mem_map.mp hmem
      exact List.any_eq_true.mpr ⟨node, hnode, decide_eq_true rfl⟩

theorem unregisterEvent_cases (id : Int) (handler : Option η) (d : EventDispatcher δ η) :
    ((d.unregisterEvent id handler).2 = d ∧ ∀ h, handler = some h → d.handlers id = []) ∨
      ∃ h, handler = some h ∧ (d.unregisterEvent id handler).2 = d.erased id h := by
  cases handler with
  | none => exact .inl ⟨rfl, fun _ hnone => by cases hnone⟩
  | some h =>
    unfold unregisterEvent
    simp only
    cases hlist : d.getHandlers id with
    | none =>
      refine .inl ⟨rfl, fun _ _ => ?_⟩
      unfold handlers
      rw [hlist]
      rfl
    | some nodes =>
      refine .inr ⟨h, rfl, ?_⟩
      unfold erased handlers
      rw [hlist]
      rfl

omit [DecidableEq η] in
-- The thread, the queue and the trace do not matter.
theorem Sound.congr (hsound : d.Sound) (hhandlers : d'.mHandlers = d.mHandlers)
    (hnext : d'.next = d.next) : d'.Sound := by
  have hlist (id : Int) : d'.handlers id = d.handlers id := by
    unfold EventDispatcher.handlers getHandlers
    rw [hhandlers]
  refine ⟨fun id => ?_, fun id => ?_, fun {id node} hnode => ?_⟩
  · rw [hlist]
    exact hsound.cells id
  · rw [hlist]
    exact hsound.distinct id
  · rw [hnext]
    rw [hlist] at hnode
    exact hsound.next hnode

omit [DecidableEq η] in
theorem Sound.added (hsound : d.Sound) {id : Int} {h : η}
    (hnew : h ∉ (d.handlers id).map Node.handler) : (d.added id h).Sound := by
  have hcell : d.next ∉ (d.handlers id).map Node.cell := by
    intro hmem
    obtain ⟨node, hnode, hcell⟩ := List.mem_map.mp hmem
    exact Nat.ne_of_lt (hsound.next hnode) hcell
  refine ⟨fun id' => ?_, fun id' => ?_, fun {id' node} hnode => ?_⟩
  · rw [handlers_added]
    split
    · rw [List.map_append, List.nodup_append_comm]
      exact List.nodup_cons.mpr ⟨hcell, hsound.cells id⟩
    · exact hsound.cells id'
  · rw [handlers_added]
    split
    · rw [List.map_append, List.nodup_append_comm]
      exact List.nodup_cons.mpr ⟨hnew, hsound.distinct id⟩
    · exact hsound.distinct id'
  · rw [handlers_added] at hnode
    show node.cell < d.next + 1
    split at hnode
    · rcases List.mem_append.mp hnode with hold | hlast
      · exact Nat.lt_succ_of_lt (hsound.next hold)
      · rw [List.mem_singleton.mp hlast]
        exact Nat.lt_succ_self _
    · exact Nat.lt_succ_of_lt (hsound.next hnode)

theorem Sound.erased (hsound : d.Sound) (id : Int) (h : η) : (d.erased id h).Sound := by
  have hsublist (id' : Int) : ((d.erased id h).handlers id').Sublist (d.handlers id') := by
    rw [handlers_erased]
    split
    next hid =>
      rw [hid]
      exact List.eraseP_sublist
    · exact .refl _
  exact ⟨fun id' => (hsound.cells id').sublist ((hsublist id').map _),
    fun id' => (hsound.distinct id').sublist ((hsublist id').map _),
    fun hnode => hsound.next ((hsublist _).mem hnode)⟩

omit [DecidableEq η] in
-- The loop leaves the lists alone.
theorem proceed_handlers (d : EventDispatcher δ η) :
    d.proceed.mHandlers = d.mHandlers ∧ d.proceed.next = d.next := by
  unfold proceed
  split
  · exact ⟨rfl, rfl⟩
  · split <;> exact ⟨rfl, rfl⟩
  · exact ⟨rfl, rfl⟩
  · split <;> exact ⟨rfl, rfl⟩
  · split <;> exact ⟨rfl, rfl⟩
  · exact ⟨rfl, rfl⟩
  · exact ⟨rfl, rfl⟩

theorem Sound.afterMove (hsound : d.Sound) (m : Move δ η) : (d.afterMove m).Sound := by
  cases m with
  | dispatch event => exact hsound.congr rfl rfl
  | dispatchSync event => exact hsound.congr rfl rfl
  | registerEvent id handler =>
    show (d.registerEvent id handler).2.Sound
    rcases registerEvent_cases id handler d with heq | ⟨h, hnew, heq⟩ <;> rw [heq]
    · exact hsound
    · exact hsound.added hnew
  | unregisterEvent id handler =>
    show (d.unregisterEvent id handler).2.Sound
    rcases unregisterEvent_cases id handler d with ⟨heq, -⟩ | ⟨h, -, heq⟩ <;> rw [heq]
    · exact hsound
    · exact hsound.erased id h
  | stop => exact hsound.congr rfl rfl
  | proceed =>
    obtain ⟨hhandlers, hnext⟩ := proceed_handlers d
    exact hsound.congr hhandlers hnext

/-! ## Others come and go -/

-- The place of the loop, the queue and the trace are as they were, and so is the place of `h`.
structure Undisturbed (h : η) (ids : List Int) (d d' : EventDispatcher δ η) : Prop where
  thread : d'.mThread = d.mThread
  queue : d'.mQueue = d.mQueue
  trace : d'.trace = d.trace
  cells {event : Event δ} {iter : Nat} : d.spot = some (event, iter) →
    iter ∈ (d'.handlers event.id).map Node.cell
  place {event : Event δ} {iter : Nat} {node : Node η} : d.spot = some (event, iter) →
    event.id ∈ ids → node.handler = h →
      (node ∈ Lib.onward Node.cell iter (d'.handlers event.id) ↔
        node ∈ Lib.onward Node.cell iter (d.handlers event.id))

omit [DecidableEq η] in
theorem Undisturbed.inPlace (hsame : Undisturbed h ids d d') (hplace : d.InPlace) : d'.InPlace := by
  have hspot : d'.spot = d.spot := by
    unfold spot
    rw [hsame.thread]
  refine ⟨fun hat => hsame.cells (hspot ▸ hat), fun event => ?_⟩
  rw [hsame.thread]
  exact hplace.sane event

theorem Undisturbed.due (hsame : Undisturbed h ids d d') : d'.due h ids = d.due h ids := by
  unfold EventDispatcher.due
  rw [hsame.queue]
  congr 1
  unfold current
  rw [hsame.thread]
  split
  next event iter hthread =>
    have hat : d.spot = some (event, iter) := by rw [spot, hthread]
    have hahead (hid : event.id ∈ ids) : Ahead h iter (d'.handlers event.id) ↔
        Ahead h iter (d.handlers event.id) :=
      exists_congr fun node => and_congr_left fun hnode => hsame.place hat hid hnode
    exact if_congr (and_congr_right hahead) rfl rfl
  next event iter hthread =>
    have hat : d.spot = some (event, iter) := by rw [spot, hthread]
    have hbehind (hid : event.id ∈ ids) : Behind h iter (d'.handlers event.id) ↔
        Behind h iter (d.handlers event.id) :=
      exists_congr fun node => and_congr_left fun hnode => hsame.place hat hid hnode.1
    exact if_congr (and_congr_right hbehind) rfl rfl
  · rfl

omit [DecidableEq η] in
theorem undisturbed_added (hplace : d.InPlace) {id : Int} {h' : η} (hne : id ∈ ids → h' ≠ h) :
    Undisturbed h ids d (d.added id h') where
  thread := rfl
  queue := rfl
  trace := rfl
  cells {event iter} hat := by
    rw [handlers_added]
    have hcell := hplace.cell hat
    split
    next hid =>
      rw [List.map_append]
      exact List.mem_append_left _ (hid ▸ hcell)
    · exact hcell
  place {event iter node} hat hid hnode := by
    rw [handlers_added]
    have hcell := hplace.cell hat
    split
    next heq =>
      rw [heq] at hcell hid ⊢
      rw [Lib.onward_append hcell, List.mem_append, or_iff_left]
      intro hnew
      rw [List.mem_singleton.mp hnew] at hnode
      exact hne hid hnode
    · rfl

theorem undisturbed_erased (hplace : d.InPlace) {id : Int} {h' : η} (hne : id ∈ ids → h' ≠ h)
    (hcut : ¬ d.Cuts (.unregisterEvent id (some h'))) : Undisturbed h ids d (d.erased id h') := by
  -- the cell of the iterator is not the one that is erased
  have hother {event : Event δ} {iter : Nat} (hat : d.spot = some (event, iter))
      (hid : event.id = id) : ∀ node ∈ d.handlers id, node.cell = iter → decide (node.handler = h') = false := by
    rintro node hnode rfl
    refine decide_eq_false ?_
    rintro rfl
    exact hcut ⟨(event, node.cell), hat, hid, hnode⟩
  refine ⟨rfl, rfl, rfl, fun {event iter} hat => ?_, fun {event iter node} hat hid hnode => ?_⟩
  · rw [handlers_erased]
    have hcell := hplace.cell hat
    split
    next heq =>
      rw [heq] at hcell
      obtain ⟨node, hnode, hiter⟩ := List.mem_map.mp hcell
      refine List.mem_map.mpr ⟨node, (List.mem_eraseP_of_neg ?_).mpr hnode, hiter⟩
      rw [hother hat heq node hnode hiter]
      exact Bool.false_ne_true
    · exact hcell
  · rw [handlers_erased]
    split
    next heq =>
      rw [heq] at hid ⊢
      refine Lib.mem_onward_eraseP (decide_eq_false ?_) (hother hat heq)
      rw [hnode]
      exact fun hsame => hne hid hsame.symm
    · rfl

/-! ## The loop goes on -/

inductive Proceeds (d : EventDispatcher δ η) : EventDispatcher δ η → Prop where
  | rests (hthread : d.mThread = .waiting ∨ d.mThread = .ended) : Proceeds d d
  | tests (hthread : d.mThread = .test) :
      Proceeds d { d with mThread := if d.mWork then .waiting else .ended }
  | takes (event : Event δ) (queue : List (Event δ)) (hthread : d.mThread = .waiting)
      (hqueue : d.mQueue = event :: queue) :
      Proceeds d (emit [.taken event]
        { d with mQueue := queue, mThread := .visiting event (begin (d.handlers event.id)) })
  | calls (event : Event δ) (node : Node η) (rest : List (Node η))
      (hthread : d.mThread = .visiting event (some node.cell))
      (honward : Lib.onward Node.cell node.cell (d.handlers event.id) = node :: rest) :
      Proceeds d (emit [.onEvent node.handler event] { d with mThread := .returned event node.cell })
  | advances (event : Event δ) (node : Node η) (rest : List (Node η))
      (hthread : d.mThread = .returned event node.cell)
      (honward : Lib.onward Node.cell node.cell (d.handlers event.id) = node :: rest) :
      Proceeds d { d with mThread := .visiting event (begin rest) }
  | deletes (event : Event δ) (hthread : d.mThread = .visiting event none) :
      Proceeds d (emit [.deleted event] { d with mThread := .test })

omit [DecidableEq η] in
theorem proceed_case (hplace : d.InPlace) : Proceeds d d.proceed := by
  -- the cell of the iterator is where it was
  have hfront {event : Event δ} {iter : Nat} (hat : d.spot = some (event, iter)) :
      ∃ node rest, node.cell = iter ∧
        Lib.onward Node.cell iter (d.handlers event.id) = node :: rest :=
    Lib.mem_keys_iff.mp (hplace.cell hat)
  unfold proceed
  split
  next hthread => exact .tests hthread
  next hthread =>
    split
    · exact .rests (.inl hthread)
    next event queue hqueue => exact .takes event queue hthread hqueue
  next event hthread => exact .deletes event hthread
  next event iter hthread =>
    obtain ⟨node, rest, rfl, honward⟩ := hfront (by rw [spot, hthread])
    rw [honward]
    exact .calls event node rest hthread honward
  next event iter hthread =>
    obtain ⟨node, rest, rfl, honward⟩ := hfront (by rw [spot, hthread])
    rw [honward]
    exact .advances event node rest hthread honward
  next hthread => exact .rests (.inr hthread)
  next event hthread => exact absurd hthread (hplace.sane event)

omit [DecidableEq η] in
-- The iterator stands at the first of the cells that are left, or at none.
theorem inPlace_begin {event : Event δ} {nodes : List (Node η)}
    (hthread : d.mThread = .visiting event (begin nodes))
    (hmem : ∀ node ∈ nodes, node ∈ d.handlers event.id) : d.InPlace := by
  refine ⟨fun {event' iter} hat => ?_, fun event' hsame => ?_⟩
  · rw [spot, hthread] at hat
    cases nodes with
    | nil => cases hat
    | cons node rest =>
      cases hat
      exact List.mem_map_of_mem (hmem node List.mem_cons_self)
  · rw [hthread] at hsame
    cases hsame

omit [DecidableEq η] in
theorem inPlace_of_no_spot (hspot : d.spot = none) (hsane : ∀ event, d.mThread ≠ .dangling event) :
    d.InPlace := by
  refine ⟨fun hat => ?_, hsane⟩
  rw [hspot] at hat
  cases hat

omit [DecidableEq η] in
theorem InPlace.proceed (hplace : d.InPlace) : d.proceed.InPlace := by
  have hcase := proceed_case hplace
  generalize d.proceed = d' at hcase ⊢
  cases hcase with
  | rests hthread => exact hplace
  | tests hthread =>
    refine inPlace_of_no_spot ?_ fun event hsame => ?_
    · cases d.mWork <;> simp [spot]
    · cases hwork : d.mWork <;> simp [hwork] at hsame
  | takes event queue hthread hqueue => exact inPlace_begin rfl fun node hnode => hnode
  | calls event node rest hthread honward =>
    refine ⟨fun hat => ?_, fun _ hsame => by cases hsame⟩
    cases hat
    exact Lib.mem_keys_iff.mpr ⟨node, rest, rfl, honward⟩
  | advances event node rest hthread honward =>
    refine inPlace_begin rfl fun other hother => ?_
    have hsublist : (node :: rest).Sublist (d.handlers event.id) :=
      honward ▸ Lib.onward_sublist node.cell _
    exact hsublist.mem (List.mem_cons_of_mem node hother)
  | deletes event hthread => exact inPlace_of_no_spot rfl fun _ hsame => by cases hsame

section

variable {id : Int} {node : Node η} {rest : List (Node η)}

omit [DecidableEq η] in
-- Behind the iterator is what follows its cell.
theorem Sound.behind_iff (hsound : d.Sound)
    (honward : Lib.onward Node.cell node.cell (d.handlers id) = node :: rest) :
    Behind h node.cell (d.handlers id) ↔ h ∈ rest.map Node.handler := by
  have hsublist : (node :: rest).Sublist (d.handlers id) := honward ▸ Lib.onward_sublist _ _
  obtain ⟨hnew, -⟩ := List.nodup_cons.mp ((hsound.cells id).sublist (hsublist.map _))
  unfold Behind
  rw [honward, List.mem_map]
  constructor
  · rintro ⟨other, hother, hhandler, hne⟩
    rcases List.mem_cons.mp hother with rfl | hrest
    · exact absurd rfl hne
    · exact ⟨other, hrest, hhandler⟩
  · rintro ⟨other, hrest, hhandler⟩
    refine ⟨other, List.mem_cons_of_mem node hrest, hhandler, fun hcell => ?_⟩
    exact hnew (List.mem_map.mpr ⟨other, hrest, hcell⟩)

omit [DecidableEq η] in
theorem ahead_iff (honward : Lib.onward Node.cell node.cell (d.handlers id) = node :: rest) :
    Ahead h node.cell (d.handlers id) ↔ h ∈ (node :: rest).map Node.handler := by
  unfold Ahead
  rw [honward, List.mem_map]

omit [DecidableEq η] in
-- No handler is in a list twice.
theorem Sound.front_once (hsound : d.Sound)
    (honward : Lib.onward Node.cell node.cell (d.handlers id) = node :: rest) :
    node.handler ∉ rest.map Node.handler := by
  have hsublist : (node :: rest).Sublist (d.handlers id) := honward ▸ Lib.onward_sublist _ _
  exact (List.nodup_cons.mp ((hsound.distinct id).sublist (hsublist.map _))).1

end

theorem received_append {points : List (Point δ η)} (htrace : d'.trace = d.trace ++ points) :
    d'.received h ids = d.received h ids ++ points.flatMap (Point.gotBy h ids) := by
  unfold received
  rw [htrace, List.flatMap_append]

-- The event is for the handler as long as the iterator is not past its cell.
theorem current_begin {event : Event δ} {nodes : List (Node η)}
    (hthread : d.mThread = .visiting event (begin nodes))
    (honward : ∀ node rest, nodes = node :: rest →
      Lib.onward Node.cell node.cell (d.handlers event.id) = nodes) :
    d.current h ids = if event.id ∈ ids ∧ h ∈ nodes.map Node.handler then [event] else [] := by
  cases nodes with
  | nil =>
    have hnone : d.current h ids = [] := by
      rw [current, hthread]
      rfl
    simp [hnone]
  | cons node rest =>
    have hcurrent : d.current h ids =
        if event.id ∈ ids ∧ Ahead h node.cell (d.handlers event.id) then [event] else [] := by
      rw [current, hthread]
      rfl
    rw [hcurrent]
    exact if_congr (and_congr_right fun _ => ahead_iff (honward node rest rfl)) rfl rfl

omit [DecidableEq η] in
theorem handlers_congr (hhandlers : d'.mHandlers = d.mHandlers) (id : Int) :
    d'.handlers id = d.handlers id := by
  unfold EventDispatcher.handlers getHandlers
  rw [hhandlers]

-- The next event is taken off the queue: its handlers are those of its list.
theorem takes_delivers (hregistered : d.Registered h ids) {event : Event δ} {queue : List (Event δ)}
    (hthread : d.mThread = .waiting) (hqueue : d.mQueue = event :: queue)
    (hthread' : d'.mThread = .visiting event (begin (d.handlers event.id)))
    (hqueue' : d'.mQueue = queue) (hhandlers : d'.mHandlers = d.mHandlers)
    (htrace : d'.trace = d.trace ++ [.taken event]) :
    d'.received h ids ++ d'.due h ids = d.received h ids ++ d.due h ids := by
  have hcurrent : d.current h ids = [] := by rw [current, hthread]
  have hfront : d'.current h ids =
      if event.id ∈ ids ∧ h ∈ (d.handlers event.id).map Node.handler then [event] else [] := by
    refine current_begin hthread' fun node rest hnodes => ?_
    rw [handlers_congr hhandlers, hnodes]
    exact Lib.onward_cons_self node rest
  have hreceived : d'.received h ids = d.received h ids :=
    (received_append htrace).trans (List.append_nil _)
  rw [hreceived, due, due, hfront, hqueue', hcurrent, hqueue]
  by_cases hid : event.id ∈ ids
  · rw [if_pos ⟨hid, hregistered _ hid⟩, List.filter_cons_of_pos (by simpa using hid)]
    rfl
  · rw [if_neg fun hboth => hid hboth.1, List.filter_cons_of_neg (by simpa using hid)]

theorem calls_delivers (hsound : d.Sound) {event : Event δ} {node : Node η} {rest : List (Node η)}
    (hthread : d.mThread = .visiting event (some node.cell))
    (honward : Lib.onward Node.cell node.cell (d.handlers event.id) = node :: rest)
    (hthread' : d'.mThread = .returned event node.cell) (hqueue : d'.mQueue = d.mQueue)
    (hhandlers : d'.mHandlers = d.mHandlers)
    (htrace : d'.trace = d.trace ++ [.onEvent node.handler event]) :
    d'.received h ids ++ d'.due h ids = d.received h ids ++ d.due h ids := by
  have hreceived : d'.received h ids = d.received h ids ++
      if node.handler = h ∧ event.id ∈ ids then [event] else [] :=
    (received_append htrace).trans (congrArg (d.received h ids ++ ·) (List.append_nil _))
  have hcurrent : d.current h ids =
      if event.id ∈ ids ∧ Ahead h node.cell (d.handlers event.id) then [event] else [] := by
    rw [current, hthread]
  have hleft : d'.current h ids =
      if event.id ∈ ids ∧ Behind h node.cell (d.handlers event.id) then [event] else [] := by
    rw [current, hthread']
    simp only [handlers_congr hhandlers]
  rw [hreceived, due, due, hleft, hcurrent, hqueue, List.append_assoc,
    ← List.append_assoc _ _ (List.filter _ _)]
  congr 2
  simp only [hsound.behind_iff honward, ahead_iff honward, List.map_cons, List.mem_cons]
  -- the handler that is called is not called again
  have honce := hsound.front_once honward
  by_cases hid : event.id ∈ ids
  · by_cases hfirst : node.handler = h
    · subst hfirst
      simp [hid, honce]
    · simp [hid, hfirst, Ne.symm hfirst]
  · simp [hid]

theorem advances_delivers (hsound : d.Sound) {event : Event δ} {node : Node η} {rest : List (Node η)}
    (hthread : d.mThread = .returned event node.cell)
    (honward : Lib.onward Node.cell node.cell (d.handlers event.id) = node :: rest)
    (hthread' : d'.mThread = .visiting event (begin rest)) (hqueue : d'.mQueue = d.mQueue)
    (hhandlers : d'.mHandlers = d.mHandlers) (htrace : d'.trace = d.trace) :
    d'.received h ids ++ d'.due h ids = d.received h ids ++ d.due h ids := by
  have hcurrent : d.current h ids =
      if event.id ∈ ids ∧ Behind h node.cell (d.handlers event.id) then [event] else [] := by
    rw [current, hthread]
  have hfront : d'.current h ids =
      if event.id ∈ ids ∧ h ∈ rest.map Node.handler then [event] else [] := by
    refine current_begin hthread' fun next rest' hnodes => ?_
    rw [handlers_congr hhandlers]
    rw [hnodes] at honward ⊢
    exact Lib.onward_next (hsound.cells event.id) honward
  have hsame : d'.current h ids = d.current h ids := by
    rw [hfront, hcurrent]
    exact if_congr (and_congr_right fun _ => (hsound.behind_iff honward).symm) rfl rfl
  rw [due, due, hsame, hqueue]
  unfold received
  rw [htrace]

-- Nobody is called, and nothing is taken off the queue.
theorem rests_delivers (hcurrent : d.current h ids = []) (hcurrent' : d'.current h ids = [])
    (hqueue : d'.mQueue = d.mQueue) {points : List (Point δ η)}
    (htrace : d'.trace = d.trace ++ points) (hpoints : points.flatMap (Point.gotBy h ids) = []) :
    d'.received h ids ++ d'.due h ids = d.received h ids ++ d.due h ids := by
  rw [received_append htrace, hpoints, List.append_nil, due, due, hcurrent, hcurrent', hqueue]

-- The loop brings the handler what it was to get.
theorem proceed_delivers (hsound : d.Sound) (hplace : d.InPlace) (hregistered : d.Registered h ids) :
    d.proceed.received h ids ++ d.proceed.due h ids = d.received h ids ++ d.due h ids := by
  have hcase := proceed_case hplace
  generalize d.proceed = d' at hcase ⊢
  cases hcase with
  | rests hthread => rfl
  | tests hthread =>
    refine rests_delivers (by rw [current, hthread]) ?_ rfl (List.append_nil _).symm rfl
    cases d.mWork <;> simp [current]
  | takes event queue hthread hqueue =>
    exact takes_delivers hregistered hthread hqueue rfl rfl rfl rfl
  | calls event node rest hthread honward =>
    exact calls_delivers hsound hthread honward rfl rfl rfl rfl
  | advances event node rest hthread honward =>
    exact advances_delivers hsound hthread honward rfl rfl rfl rfl
  | deletes event hthread =>
    exact rests_delivers (by rw [current, hthread]) rfl rfl rfl rfl

omit [DecidableEq η] in
-- A step of the loop calls one handler or none.
theorem proceed_points (hplace : d.InPlace) :
    (∃ handler event, d.proceed.trace = d.trace ++ [.onEvent handler event]) ∨
      ∃ points, d.proceed.trace = d.trace ++ points ∧
        ∀ handler event, .onEvent handler event ∉ points := by
  have hcase := proceed_case hplace
  generalize d.proceed = d' at hcase ⊢
  cases hcase with
  | rests hthread => exact .inr ⟨[], (List.append_nil _).symm, by simp⟩
  | tests hthread => exact .inr ⟨[], (List.append_nil _).symm, by simp⟩
  | takes event queue hthread hqueue => exact .inr ⟨[.taken event], rfl, by simp⟩
  | calls event node rest hthread honward => exact .inl ⟨node.handler, event, rfl⟩
  | advances event node rest hthread honward => exact .inr ⟨[], (List.append_nil _).symm, by simp⟩
  | deletes event hthread => exact .inr ⟨[.deleted event], rfl, by simp⟩

/-! ## Moves and runs -/

theorem current_congr (hthread : d'.mThread = d.mThread) (hhandlers : d'.mHandlers = d.mHandlers) :
    d'.current h ids = d.current h ids := by
  unfold current
  rw [hthread]
  simp only [handlers_congr hhandlers]

omit [DecidableEq η] in
theorem InPlace.congr (hplace : d.InPlace) (hthread : d'.mThread = d.mThread)
    (hhandlers : d'.mHandlers = d.mHandlers) : d'.InPlace := by
  have hspot : d'.spot = d.spot := by
    unfold spot
    rw [hthread]
  refine ⟨fun {event iter} hat => ?_, fun event => ?_⟩
  · unfold EventDispatcher.handlers getHandlers
    rw [hhandlers]
    exact hplace.cell (hspot ▸ hat)
  · rw [hthread]
    exact hplace.sane event

omit [DecidableEq η] in
theorem Registered.congr (hregistered : d.Registered h ids) (hhandlers : d'.mHandlers = d.mHandlers) :
    d'.Registered h ids := by
  intro id hid
  unfold EventDispatcher.handlers getHandlers
  rw [hhandlers]
  exact hregistered id hid

omit [DecidableEq η] in
theorem Registered.added (hregistered : d.Registered h ids) (id : Int) (h' : η) :
    (d.added id h').Registered h ids := by
  intro id' hid'
  rw [handlers_added]
  split
  next heq =>
    rw [List.map_append]
    exact List.mem_append_left _ (heq ▸ hregistered id' hid')
  · exact hregistered id' hid'

theorem Registered.erased (hregistered : d.Registered h ids) {id : Int} {h' : η}
    (hne : id ∈ ids → h' ≠ h) : (d.erased id h').Registered h ids := by
  intro id' hid'
  rw [handlers_erased]
  split
  next heq =>
    obtain ⟨node, hnode, hhandler⟩ := List.mem_map.mp (heq ▸ hregistered id' hid')
    refine List.mem_map.mpr ⟨node, (List.mem_eraseP_of_neg ?_).mpr hnode, hhandler⟩
    simp only [decide_eq_true_eq, hhandler]
    exact fun hsame => hne (heq ▸ hid') hsame.symm
  · exact hregistered id' hid'

theorem InPlace.afterMove (hplace : d.InPlace) {m : Move δ η} (hcut : ¬ d.Cuts m) :
    (d.afterMove m).InPlace := by
  cases m with
  | dispatch event => exact hplace.congr rfl rfl
  | dispatchSync event => exact hplace.congr rfl rfl
  | registerEvent id handler =>
    show (d.registerEvent id handler).2.InPlace
    rcases registerEvent_cases id handler d with heq | ⟨h, -, heq⟩ <;> rw [heq]
    · exact hplace
    · have hadded : Undisturbed h [] d (d.added id h) := undisturbed_added hplace (by simp)
      exact hadded.inPlace hplace
  | unregisterEvent id handler =>
    show (d.unregisterEvent id handler).2.InPlace
    rcases unregisterEvent_cases id handler d with ⟨heq, -⟩ | ⟨h, rfl, heq⟩ <;> rw [heq]
    · exact hplace
    · have herased : Undisturbed h [] d (d.erased id h) := undisturbed_erased hplace (by simp) hcut
      exact herased.inPlace hplace
  | stop => exact hplace.congr rfl rfl
  | proceed => exact hplace.proceed

theorem Registered.afterMove (hregistered : d.Registered h ids) {m : Move δ η}
    (hstays : ¬ m.Drops h ids) : (d.afterMove m).Registered h ids := by
  cases m with
  | dispatch event => exact hregistered.congr rfl
  | dispatchSync event => exact hregistered.congr rfl
  | registerEvent id handler =>
    show (d.registerEvent id handler).2.Registered h ids
    rcases registerEvent_cases id handler d with heq | ⟨h', -, heq⟩ <;> rw [heq]
    · exact hregistered
    · exact hregistered.added id h'
  | unregisterEvent id handler =>
    show (d.unregisterEvent id handler).2.Registered h ids
    rcases unregisterEvent_cases id handler d with ⟨heq, -⟩ | ⟨h', rfl, heq⟩ <;> rw [heq]
    · exact hregistered
    · exact hregistered.erased fun hid hsame => hstays ⟨hsame, hid⟩
  | stop => exact hregistered.congr rfl
  | proceed => exact hregistered.congr (proceed_handlers d).1

-- What the handler has got and is to get grows by what the move leaves in the queue for it.
theorem move_delivers (hsound : d.Sound) (hplace : d.InPlace) (hregistered : d.Registered h ids)
    {m : Move δ η} (hcut : ¬ d.Cuts m) (hstays : ¬ m.Drops h ids) :
    (d.afterMove m).received h ids ++ (d.afterMove m).due h ids =
      d.received h ids ++ d.due h ids ++ m.queued.filter fun event => event.id ∈ ids := by
  have hsame {d' : EventDispatcher δ η} (hundisturbed : Undisturbed h ids d d') :
      d'.received h ids ++ d'.due h ids = d.received h ids ++ d.due h ids ++ [] := by
    rw [hundisturbed.due, List.append_nil]
    unfold received
    rw [hundisturbed.trace]
  cases m with
  | dispatch event =>
    have hcurrent : (d.dispatch event).2.current h ids = d.current h ids := current_congr rfl rfl
    have hqueue : (d.dispatch event).2.mQueue = d.mQueue ++ [event] := rfl
    show d.received h ids ++ (d.dispatch event).2.due h ids = _
    rw [due, due, hcurrent, hqueue, List.filter_append]
    simp only [List.append_assoc]
    rfl
  | dispatchSync event =>
    have hcurrent : (d.dispatchSync event).2.current h ids = d.current h ids := current_congr rfl rfl
    -- what a handler gets synchronously has not been in the queue
    have hreceived : (d.dispatchSync event).2.received h ids = d.received h ids := by
      have htrace : (d.dispatchSync event).2.trace = d.trace ++
          (((d.handlers event.id).map fun node => .onSyncEvent node.handler event) ++
            [.deleted event]) := rfl
      rw [received_append htrace, List.flatMap_append, List.flatMap_map]
      simp [Point.gotBy]
    show (d.dispatchSync event).2.received h ids ++ (d.dispatchSync event).2.due h ids = _
    rw [hreceived, due, due, hcurrent]
    exact (List.append_nil _).symm
  | registerEvent id handler =>
    show (d.registerEvent id handler).2.received h ids ++ (d.registerEvent id handler).2.due h ids = _
    rcases registerEvent_cases id handler d with heq | ⟨h', hnew, heq⟩ <;> rw [heq]
    · exact (List.append_nil _).symm
    · refine hsame (undisturbed_added hplace ?_)
      rintro hid rfl
      exact hnew (hregistered id hid)
  | unregisterEvent id handler =>
    show (d.unregisterEvent id handler).2.received h ids ++
      (d.unregisterEvent id handler).2.due h ids = _
    rcases unregisterEvent_cases id handler d with ⟨heq, -⟩ | ⟨h', rfl, heq⟩ <;> rw [heq]
    · exact (List.append_nil _).symm
    · exact hsame (undisturbed_erased hplace (fun hid hsame => hstays ⟨hsame, hid⟩) hcut)
  | stop => exact (List.append_nil (d.received h ids ++ d.due h ids)).symm
  | proceed => exact (proceed_delivers hsound hplace hregistered).trans (List.append_nil _).symm

structure Started (d : EventDispatcher δ η) : Prop where
  unregistered : d.mHandlers = ∅
  atTest : d.mThread = .test
  silent : d.trace = []
  empty : d.mQueue = []

omit [DecidableEq η] in
theorem Started.sound (hstart : d.Started) : d.Sound := by
  have hlist (id : Int) : d.handlers id = [] := by
    unfold EventDispatcher.handlers getHandlers
    rw [hstart.unregistered]
    rfl
  refine ⟨fun id => ?_, fun id => ?_, fun {id node} hnode => ?_⟩
  · rw [hlist]
    exact List.nodup_nil
  · rw [hlist]
    exact List.nodup_nil
  · rw [hlist] at hnode
    cases hnode

omit [DecidableEq η] in
theorem Started.inPlace (hstart : d.Started) : d.InPlace := by
  refine ⟨fun hat => ?_, fun event hsame => ?_⟩
  · rw [spot, hstart.atTest] at hat
    cases hat
  · rw [hstart.atTest] at hsame
    cases hsame

-- The erased cell is gone for good.
theorem Sound.not_mem_erased (hsound : d.Sound) {id : Int} {iter : Nat}
    (hmem : ⟨iter, h⟩ ∈ d.handlers id) : iter ∉ ((d.erased id h).handlers id).map Node.cell := by
  rw [handlers_erased, if_pos rfl]
  obtain ⟨node, before, after, -, hnode, hlist, herased⟩ :=
    List.exists_of_eraseP hmem (p := fun node => decide (node.handler = h)) (decide_eq_true rfl)
  have hcells := hsound.cells id
  have hdistinct := hsound.distinct id
  rw [hlist, List.map_append, List.map_cons] at hcells hdistinct
  rw [hlist] at hmem
  -- the handler has one cell
  have hiter : node.cell = iter := by
    have hfirst := (List.nodup_middle.mp hdistinct)
    have hother := (List.nodup_cons.mp hfirst).1
    rw [of_decide_eq_true hnode, ← List.map_append] at hother
    rcases List.mem_append.mp hmem with hbefore | hrest
    · exact absurd (List.mem_map_of_mem (List.mem_append_left _ hbefore)) hother
    · rcases List.mem_cons.mp hrest with heq | hafter
      · rw [← heq]
      · exact absurd (List.mem_map_of_mem (List.mem_append_right _ hafter)) hother
  rw [herased, List.map_append, ← hiter]
  exact (List.nodup_cons.mp (List.nodup_middle.mp hcells)).1

-- A move leaves the iterator in place exactly if it does not erase its cell.
theorem inPlace_iff (hsound : d.Sound) (hplace : d.InPlace) (m : Move δ η) :
    (∀ d', d.step m = some d' → d'.InPlace) ↔ ¬ d.Cuts m := by
  constructor
  · intro hleaves hcuts
    have hplace' := hleaves _ rfl
    cases m with
    | unregisterEvent id handler =>
      cases handler with
      | none => exact hcuts
      | some h =>
        obtain ⟨⟨event, iter⟩, hat, rfl, hmem⟩ := hcuts
        rcases unregisterEvent_cases event.id (some h) d with ⟨-, hnone⟩ | ⟨h', hsame, heq⟩
        · rw [hnone h rfl] at hmem
          cases hmem
        · cases hsame
          have herased : (d.erased event.id h).InPlace := heq ▸ hplace'
          exact hsound.not_mem_erased hmem (herased.cell hat)
    | _ => exact hcuts
  · intro hcut d' hstep
    cases hstep
    exact hplace.afterMove hcut

/-! ## Runs -/

/-- The loop never uses a cell after it was erased exactly if nobody unregisters the handler it
    stands at. -/
theorem run_inPlace_iff {ms : List (Move δ η)} (hstart : d.Started) :
    Lib.Along step (fun d m => ∀ d', d.step m = some d' → d'.InPlace) d ms ↔
      Lib.Along step (fun d m => ¬ d.Cuts m) d ms := by
  refine Lib.Along.leaves_iff Sound InPlace (fun d m d' hsound hstep => ?_)
    (fun d m hsound hplace => inPlace_iff hsound hplace m) hstart.sound hstart.inPlace
  cases hstep
  exact hsound.afterMove m

/-- Of the moves of all threads, those that come after a handler has been registered and do not take
    it off its lists again bring it the events that are dispatched for it: each once, in their order,
    behind what it was to get before, and those it has not got yet are still to come. -/
theorem run_received {before ms : List (Move δ η)} {d₀ : EventDispatcher δ η} (hstart : d₀.Started)
    (hcalm : Lib.Along step (fun d m => ¬ d.Cuts m) d₀ before)
    (hbefore : Lib.run step d₀ before = some d) (hregistered : d.Registered h ids)
    (hstays : Lib.Along step (fun d m => ¬ d.Cuts m ∧ ¬ m.Drops h ids) d ms)
    (hrun : Lib.run step d ms = some d') :
    d'.received h ids ++ d'.due h ids =
      d.received h ids ++ d.due h ids ++
        (ms.flatMap Move.queued).filter fun event => event.id ∈ ids := by
  obtain ⟨hsound, hplace⟩ : d.Sound ∧ d.InPlace := by
    refine Lib.Along.invariant (fun d => d.Sound ∧ d.InPlace) (fun d m d' hd hcut hstep => ?_)
      ⟨hstart.sound, hstart.inPlace⟩ hcalm hbefore
    cases hstep
    exact ⟨hd.1.afterMove m, hd.2.afterMove hcut⟩
  have hinvariant := Lib.Along.history
    (fun past (s : EventDispatcher δ η) => (s.Sound ∧ s.InPlace ∧ s.Registered h ids) ∧
      s.received h ids ++ s.due h ids = d.received h ids ++ d.due h ids ++
        (past.flatMap Move.queued).filter fun event => event.id ∈ ids) ?_ [] ?_ hstays hrun
  · exact hinvariant.2
  · rintro past s m s' ⟨⟨hsound, hplace, hregistered⟩, hconserved⟩ ⟨hcut, hstays⟩ hstep
    cases hstep
    refine ⟨⟨hsound.afterMove m, hplace.afterMove hcut, hregistered.afterMove hstays⟩, ?_⟩
    rw [move_delivers hsound hplace hregistered hcut hstays, hconserved, List.flatMap_append,
      List.filter_append, List.append_assoc, List.flatMap_singleton]
  · exact ⟨⟨hsound, hplace, hregistered⟩, (List.append_nil _).symm⟩

def sampleStart : EventDispatcher Unit Nat :=
  ((({} : EventDispatcher Unit Nat).afterMove (.registerEvent 7 (some 1))).afterMove
    (.registerEvent 7 (some 2)))

-- While the first handler has the event, the second goes and a third comes.
def sampleMoves : List (Move Unit Nat) :=
  [.dispatch ⟨7, 0, ()⟩, .proceed, .proceed, .proceed, .unregisterEvent 7 (some 2),
    .registerEvent 7 (some 3), .dispatch ⟨7, 1, ()⟩, .proceed, .proceed]

theorem started_empty : Started ({} : EventDispatcher Unit Nat) := ⟨rfl, rfl, rfl, rfl⟩

theorem run_inPlace_sample :
    Lib.Along step (fun d m => ∀ d', d.step m = some d' → d'.InPlace) ({} : EventDispatcher Unit Nat)
      (.registerEvent 7 (some 1) :: .registerEvent 7 (some 2) :: sampleMoves) :=
  (run_inPlace_iff started_empty).mpr (by decide)

theorem run_received_sample :
    ∃ d', Lib.run step sampleStart sampleMoves = some d' ∧ d'.received 1 [7] = [⟨7, 0, ()⟩] ∧
      d'.received 1 [7] ++ d'.due 1 [7] =
        sampleStart.received 1 [7] ++ sampleStart.due 1 [7] ++
          (sampleMoves.flatMap Move.queued).filter fun event => event.id ∈ [7] := by
  have hreach : ∃ d', Lib.run step sampleStart sampleMoves = some d' ∧
      d'.received 1 [7] = [⟨7, 0, ()⟩] := Lib.run_reaches (by decide)
  obtain ⟨d', hrun, hreceived⟩ := hreach
  have hcalm : Lib.Along step (fun d m => ¬ d.Cuts m) ({} : EventDispatcher Unit Nat)
      [.registerEvent 7 (some 1), .registerEvent 7 (some 2)] := by decide
  have hregistered : sampleStart.Registered 1 [7] := by
    unfold Registered
    decide
  have hstays : Lib.Along step (fun d m => ¬ d.Cuts m ∧ ¬ m.Drops 1 [7]) sampleStart sampleMoves := by
    decide
  exact ⟨d', hrun, hreceived, run_received started_empty hcalm rfl hregistered hstays hrun⟩

/-! ## Events are deleted once -/

def Point.freed : Point δ η → List (Event δ)
  | .deleted event => [event]
  | _ => []

def freed (d : EventDispatcher δ η) : List (Event δ) := d.trace.flatMap Point.freed

def held (d : EventDispatcher δ η) : List (Event δ) :=
  match d.mThread with
  | .visiting event _ => [event]
  | .returned event _ => [event]
  | .dangling event => [event]
  | _ => []

def Move.given : Move δ η → List (Event δ)
  | .dispatch event => [event]
  | .dispatchSync event => [event]
  | _ => []

omit [DecidableEq η] in
theorem freed_append {points : List (Point δ η)} (htrace : d'.trace = d.trace ++ points) :
    d'.freed = d.freed ++ points.flatMap Point.freed := by
  unfold freed
  rw [htrace, List.flatMap_append]

omit [DecidableEq η] in
-- The loop takes the front of the queue and deletes what it has taken.
theorem proceed_frees (d : EventDispatcher δ η) :
    d.proceed.freed ++ (d.proceed.held ++ d.proceed.mQueue) = d.freed ++ (d.held ++ d.mQueue) := by
  unfold proceed
  split
  next hthread => cases d.mWork <;> simp [held, hthread, freed]
  next hthread =>
    split
    · rfl
    next hqueue => simp [held, hthread, hqueue, freed, Point.freed, emit]
  next hthread => simp [held, hthread, freed, Point.freed, emit]
  next hthread => split <;> simp [held, hthread, freed, Point.freed, emit]
  next hthread => split <;> simp [held, hthread, freed]
  · rfl
  · rfl

theorem move_frees (d : EventDispatcher δ η) (m : Move δ η) :
    ((d.afterMove m).freed ++ ((d.afterMove m).held ++ (d.afterMove m).mQueue)).Perm
      (d.freed ++ (d.held ++ d.mQueue) ++ m.given) := by
  have hsame {d' : EventDispatcher δ η} (htrace : d'.trace = d.trace)
      (hthread : d'.mThread = d.mThread) (hqueue : d'.mQueue = d.mQueue) :
      (d'.freed ++ (d'.held ++ d'.mQueue)).Perm (d.freed ++ (d.held ++ d.mQueue) ++ []) := by
    rw [List.append_nil]
    unfold freed held
    rw [htrace, hthread, hqueue]
  cases m with
  | dispatch event =>
    show (d.freed ++ (d.held ++ (d.mQueue ++ [event]))).Perm (d.freed ++ (d.held ++ d.mQueue) ++ [event])
    simp
  | dispatchSync event =>
    have hfreed : (d.dispatchSync event).2.freed = d.freed ++ [event] := by
      refine (freed_append rfl).trans ?_
      rw [List.flatMap_append, List.flatMap_map]
      simp [Point.freed]
    show ((d.dispatchSync event).2.freed ++ (d.held ++ d.mQueue)).Perm _
    rw [hfreed, List.append_assoc, List.append_assoc]
    exact List.perm_append_comm.append_left _
  | registerEvent id handler =>
    show ((d.registerEvent id handler).2.freed ++
      ((d.registerEvent id handler).2.held ++ (d.registerEvent id handler).2.mQueue)).Perm _
    rcases registerEvent_cases id handler d with heq | ⟨h, -, heq⟩ <;> rw [heq] <;>
      exact hsame rfl rfl rfl
  | unregisterEvent id handler =>
    show ((d.unregisterEvent id handler).2.freed ++
      ((d.unregisterEvent id handler).2.held ++ (d.unregisterEvent id handler).2.mQueue)).Perm _
    rcases unregisterEvent_cases id handler d with ⟨heq, -⟩ | ⟨h, -, heq⟩ <;> rw [heq] <;>
      exact hsame rfl rfl rfl
  | stop => exact hsame rfl rfl rfl
  | proceed =>
    rw [show d.afterMove .proceed = d.proceed from rfl, proceed_frees d]
    exact .of_eq (List.append_nil _).symm

/-- The events handed over in a run are those that were deleted, the one the loop has, and those in
    the queue: none is deleted twice, and none is lost. -/
theorem run_frees {ms : List (Move δ η)} (hstart : d.Started) (hrun : Lib.run step d ms = some d') :
    (d'.freed ++ (d'.held ++ d'.mQueue)).Perm (ms.flatMap Move.given) := by
  have hempty : (d.freed ++ (d.held ++ d.mQueue)).Perm [] := by
    unfold freed held
    rw [hstart.silent, hstart.atTest, hstart.empty]
    exact .nil
  have halong : Lib.Along step (fun _ _ => True) d ms := .of_forall (fun _ _ _ => trivial) d
  refine Lib.Along.history (fun past (d : EventDispatcher δ η) =>
    (d.freed ++ (d.held ++ d.mQueue)).Perm (past.flatMap Move.given)) ?_ [] hempty halong hrun
  intro past d m d' hperm _ hstep
  cases hstep
  rw [List.flatMap_append, List.flatMap_singleton]
  exact (move_frees d m).trans (hperm.append_right _)

theorem run_frees_sample :
    ∃ d', Lib.run step ({} : EventDispatcher Unit Nat) sampleMoves = some d' ∧
      (d'.freed ++ (d'.held ++ d'.mQueue)).Perm (sampleMoves.flatMap Move.given) :=
  ⟨_, rfl, run_frees started_empty rfl⟩

end EventDispatcher

end NetCore
