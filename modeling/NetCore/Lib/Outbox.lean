import Mathlib.Data.List.Basic

/-!
# Packets on a stream

Packets wait for a stream that takes the items of the front a few at a time.  The front leaves when
all of it is out, or before that: then the stream goes on with the packet behind it.
-/

namespace NetCore.Lib

/-- A packet, and how many of its items are on the stream. -/
structure Parcel (α κ : Type*) where
  items : List α
  label : κ
  taken : Nat := 0

namespace Parcel

variable {α κ : Type*}

def sent (x : Parcel α κ) : List α := x.items.take x.taken

def left (x : Parcel α κ) : List α := x.items.drop x.taken

def Whole (x : Parcel α κ) : Prop := x.items.length ≤ x.taken

instance (x : Parcel α κ) : Decidable x.Whole := inferInstanceAs (Decidable (_ ≤ _))

def take (n : Nat) (x : Parcel α κ) : Parcel α κ := { x with taken := x.taken + n }

theorem sent_take (n : Nat) (x : Parcel α κ) : (x.take n).sent = x.sent ++ x.left.take n :=
  List.take_add

theorem left_take (n : Nat) (x : Parcel α κ) : (x.take n).left = x.left.drop n := by
  unfold left take
  rw [List.drop_drop]

theorem sent_of_untouched {x : Parcel α κ} (h : x.taken = 0) : x.sent = [] := by
  unfold sent
  rw [h, List.take_zero]

end Parcel

structure Outbox (α κ : Type*) where
  /-- The packets that have left, whole or not. -/
  gone : List (Parcel α κ) := []
  waiting : List (Parcel α κ) := []

namespace Outbox

variable {α κ : Type*} {o : Outbox α κ} {x : Parcel α κ} {rest : List (Parcel α κ)}

def parcels (o : Outbox α κ) : List (Parcel α κ) := o.gone ++ o.waiting

def output (o : Outbox α κ) : List α := o.parcels.flatMap Parcel.sent

/-- The packets in the order in which they came. -/
def handed (o : Outbox α κ) : List (List α × κ) := o.parcels.map fun x => (x.items, x.label)

def completed (o : Outbox α κ) : List (Parcel α κ) := o.gone.filter fun x => x.Whole

/-- Behind the front nothing is on the stream. -/
def Orderly (o : Outbox α κ) : Prop := ∀ x ∈ o.waiting.tail, x.taken = 0

def hand (items : List α) (label : κ) (o : Outbox α κ) : Outbox α κ :=
  { o with waiting := o.waiting ++ [{ items, label }] }

def take (n : Nat) (o : Outbox α κ) : Outbox α κ :=
  match o.waiting with
  | [] => o
  | x :: rest => { o with waiting := x.take n :: rest }

def leave (o : Outbox α κ) : Outbox α κ :=
  match o.waiting with
  | [] => o
  | x :: rest => { gone := o.gone ++ [x], waiting := rest }

theorem take_cons (n : Nat) (h : o.waiting = x :: rest) :
    o.take n = { o with waiting := x.take n :: rest } := by
  unfold take
  rw [h]

theorem leave_cons (h : o.waiting = x :: rest) :
    o.leave = { gone := o.gone ++ [x], waiting := rest } := by
  unfold leave
  rw [h]

@[simp] theorem parcels_leave (o : Outbox α κ) : o.leave.parcels = o.parcels := by
  cases h : o.waiting with
  | nil =>
    unfold leave
    rw [h]
  | cons x rest => simp [leave_cons h, parcels, h]

@[simp] theorem gone_take (n : Nat) (o : Outbox α κ) : (o.take n).gone = o.gone := by
  unfold take
  split <;> rfl

theorem length_parcels (o : Outbox α κ) : o.parcels.length = o.gone.length + o.waiting.length :=
  List.length_append

theorem length_take (n : Nat) (o : Outbox α κ) : (o.take n).parcels.length = o.parcels.length := by
  cases h : o.waiting with
  | nil =>
    unfold take
    rw [h]
  | cons x rest => simp [take_cons n h, parcels, h]

/-! ## What comes in -/

@[simp] theorem handed_hand (items : List α) (label : κ) (o : Outbox α κ) :
    (o.hand items label).handed = o.handed ++ [(items, label)] := by
  simp [handed, hand, parcels]

@[simp] theorem handed_take (n : Nat) (o : Outbox α κ) : (o.take n).handed = o.handed := by
  cases h : o.waiting with
  | nil =>
    unfold take
    rw [h]
  | cons x rest => simp [take_cons n h, handed, parcels, h, Parcel.take]

@[simp] theorem handed_leave (o : Outbox α κ) : o.leave.handed = o.handed := by
  cases h : o.waiting with
  | nil =>
    unfold leave
    rw [h]
  | cons x rest => simp [leave_cons h, handed, parcels, h]

/-! ## What goes out -/

@[simp] theorem output_hand (items : List α) (label : κ) (o : Outbox α κ) :
    (o.hand items label).output = o.output := by
  simp [output, hand, parcels, Parcel.sent]

-- The packets behind the front have no items before those the stream takes now.
theorem output_take (n : Nat) (horderly : o.Orderly) (h : o.waiting = x :: rest) :
    (o.take n).output = o.output ++ x.left.take n := by
  have hrest : rest.flatMap Parcel.sent = [] := by
    rw [List.flatMap_eq_nil_iff]
    intro y hy
    refine Parcel.sent_of_untouched (horderly y ?_)
    rw [h]
    exact hy
  rw [take_cons n h]
  simp [output, parcels, h, Parcel.sent_take, hrest]

@[simp] theorem output_leave (o : Outbox α κ) : o.leave.output = o.output := by
  cases h : o.waiting with
  | nil =>
    unfold leave
    rw [h]
  | cons x rest => simp [leave_cons h, output, parcels, h]

@[simp] theorem completed_hand (items : List α) (label : κ) (o : Outbox α κ) :
    (o.hand items label).completed = o.completed := rfl

@[simp] theorem completed_take (n : Nat) (o : Outbox α κ) : (o.take n).completed = o.completed := by
  unfold take
  split <;> rfl

theorem completed_leave (h : o.waiting = x :: rest) :
    o.leave.completed = o.completed ++ if x.Whole then [x] else [] := by
  rw [leave_cons h]
  unfold completed
  rw [List.filter_append]
  by_cases hwhole : x.Whole
  · simp [hwhole]
  · simp [hwhole]

/-! ## The order -/

theorem Orderly.hand (h : o.Orderly) (items : List α) (label : κ) : (o.hand items label).Orderly := by
  intro y hy
  cases hwaiting : o.waiting with
  | nil =>
    rw [Outbox.hand, hwaiting] at hy
    cases hy
  | cons x rest =>
    rw [Outbox.hand, hwaiting] at hy
    rcases List.mem_append.mp hy with hold | hnew
    · refine h y ?_
      rw [hwaiting]
      exact hold
    · rw [List.mem_singleton.mp hnew]

theorem Orderly.take (h : o.Orderly) (n : Nat) (hwaiting : o.waiting = x :: rest) :
    (o.take n).Orderly := by
  rw [take_cons n hwaiting]
  intro y hy
  refine h y ?_
  rw [hwaiting]
  exact hy

theorem Orderly.leave (h : o.Orderly) (hwaiting : o.waiting = x :: rest) : o.leave.Orderly := by
  rw [leave_cons hwaiting]
  intro y hy
  refine h y ?_
  rw [hwaiting]
  exact List.mem_of_mem_tail hy

end Outbox

end NetCore.Lib
