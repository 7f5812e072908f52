import Mathlib.Data.Finset.Card
import Mathlib.Tactic

/-!
# The connections of the server

What `Serve` and the handlers do to the connections.  The handler of a connection
is in its loop until it returns; then it gives up the place of its connection
among the active ones, and then it calls `Done`.
-/

namespace Carrot

/-- The connections, by the order in which they were registered or turned away. -/
structure Connections where
  number : Nat
  active : Finset Nat
  clientsWg : Nat
  /-- The handlers in the loop of `handleClient`, those that have left it and have
  not given up their place in `active`, and those that have not called `Done`. -/
  serving : Finset Nat
  leaving : Finset Nat
  left : Finset Nat
  /-- The connections that the server has closed. -/
  closed : Finset Nat

namespace Connections

def empty : Connections := ⟨0, ∅, 0, ∅, ∅, ∅, ∅⟩

/-- Close the next connection. -/
def turnAway (conns : Connections) : Connections :=
  { conns with number := conns.number + 1, closed := insert conns.number conns.closed }

/-- Register the next connection and start its handler. -/
def register (conns : Connections) : Connections :=
  { conns with
    number := conns.number + 1
    active := insert conns.number conns.active
    clientsWg := conns.clientsWg + 1
    serving := insert conns.number conns.serving }

/-- Close all connections that are registered. -/
def closeActive (conns : Connections) : Connections :=
  { conns with closed := conns.closed ∪ conns.active }

/-- The handler of a connection returns and closes it. -/
def finish (conns : Connections) (conn : Nat) : Connections :=
  { conns with
    serving := conns.serving.erase conn
    leaving := insert conn conns.leaving
    closed := insert conn conns.closed }

/-- The section of a handler that gives up its place. -/
def leave (conns : Connections) (conn : Nat) : Connections :=
  { conns with
    active := conns.active.erase conn
    leaving := conns.leaving.erase conn
    left := insert conn conns.left }

def done (conns : Connections) (conn : Nat) : Connections :=
  { conns with clientsWg := conns.clientsWg - 1, left := conns.left.erase conn }

/-! ## Counting handlers -/

variable {limit : Nat} {conns : Connections} {conn : Nat}

/-- Every handler is in one place and is counted, and what has no handler in its
loop is closed. -/
structure Counted (limit : Nat) (conns : Connections) : Prop where
  active : conns.active = conns.serving ∪ conns.leaving
  clients : conns.clientsWg = conns.serving.card + conns.leaving.card + conns.left.card
  known : ∀ conn ∈ conns.serving ∪ conns.leaving ∪ conns.left, conn < conns.number
  apart : Disjoint conns.serving conns.leaving
  gone : Disjoint (conns.serving ∪ conns.leaving) conns.left
  bounded : conns.active.card ≤ limit
  closed : ∀ conn < conns.number, conn ∈ conns.serving ∨ conn ∈ conns.closed

theorem counted_empty (limit : Nat) : Counted limit empty := by
  constructor <;> simp [empty]

theorem Counted.turnAway (counted : conns.Counted limit) : conns.turnAway.Counted limit := by
  refine ⟨counted.active, counted.clients, ?_, counted.apart, counted.gone, counted.bounded, ?_⟩
  · exact fun conn inside => Nat.lt_succ_of_lt (counted.known conn inside)
  · intro conn below
    rcases Nat.lt_succ_iff_lt_or_eq.mp below with old | rfl
    · exact (counted.closed conn old).imp_right Finset.mem_insert_of_mem
    · exact .inr (Finset.mem_insert_self _ _)

theorem Counted.register (counted : conns.Counted limit) (room : conns.active.card < limit) :
    conns.register.Counted limit := by
  have new : conns.number ∉ conns.serving ∪ conns.leaving ∪ conns.left :=
    fun inside => Nat.lt_irrefl _ (counted.known _ inside)
  simp only [Finset.mem_union, not_or] at new
  obtain ⟨⟨notServing, notLeaving⟩, notLeft⟩ := new
  have notActive : conns.number ∉ conns.active := by
    rw [counted.active, Finset.mem_union, not_or]
    exact ⟨notServing, notLeaving⟩
  constructor
  · simp only [Connections.register, counted.active, Finset.insert_union]
  · simp only [Connections.register, Finset.card_insert_of_notMem notServing, counted.clients]
    omega
  · intro conn inside
    simp only [Connections.register, Finset.insert_union, Finset.mem_insert] at inside ⊢
    rcases inside with rfl | old
    · exact Nat.lt_succ_self _
    · exact Nat.lt_succ_of_lt (counted.known conn old)
  · exact Finset.disjoint_insert_left.mpr ⟨notLeaving, counted.apart⟩
  · simp only [Connections.register, Finset.insert_union]
    exact Finset.disjoint_insert_left.mpr ⟨notLeft, counted.gone⟩
  · simp only [Connections.register, Finset.card_insert_of_notMem notActive]
    exact room
  · intro conn below
    simp only [Connections.register] at below ⊢
    rcases Nat.lt_succ_iff_lt_or_eq.mp below with old | rfl
    · exact (counted.closed conn old).imp_left Finset.mem_insert_of_mem
    · exact .inl (Finset.mem_insert_self _ _)

theorem Counted.closeActive (counted : conns.Counted limit) : conns.closeActive.Counted limit :=
  ⟨counted.active, counted.clients, counted.known, counted.apart, counted.gone, counted.bounded,
    fun conn below => (counted.closed conn below).imp_right (Finset.mem_union_left _)⟩

theorem Counted.finish (counted : conns.Counted limit) (inside : conn ∈ conns.serving) :
    (conns.finish conn).Counted limit := by
  have notLeaving := Finset.disjoint_left.mp counted.apart inside
  have positive := Finset.card_pos.mpr ⟨conn, inside⟩
  have same : conns.serving.erase conn ∪ insert conn conns.leaving =
      conns.serving ∪ conns.leaving := by
    rw [Finset.union_insert, ← Finset.insert_union, Finset.insert_erase inside]
  constructor
  · exact counted.active.trans same.symm
  · simp only [Connections.finish, Finset.card_erase_of_mem inside,
      Finset.card_insert_of_notMem notLeaving, counted.clients]
    omega
  · simp only [Connections.finish, same]
    exact counted.known
  · refine Finset.disjoint_insert_right.mpr ⟨Finset.notMem_erase _ _, ?_⟩
    exact counted.apart.mono_left (Finset.erase_subset _ _)
  · simp only [Connections.finish, same]
    exact counted.gone
  · exact counted.bounded
  · intro other below
    by_cases equal : other = conn
    · exact .inr (Finset.mem_insert.mpr (.inl equal))
    · refine (counted.closed other below).imp ?_ Finset.mem_insert_of_mem
      exact fun serving => Finset.mem_erase.mpr ⟨equal, serving⟩

theorem Counted.leave (counted : conns.Counted limit) (inside : conn ∈ conns.leaving) :
    (conns.leave conn).Counted limit := by
  have notServing := Finset.disjoint_right.mp counted.apart inside
  have notLeft := Finset.disjoint_left.mp counted.gone (Finset.mem_union_right _ inside)
  have positive := Finset.card_pos.mpr ⟨conn, inside⟩
  have fewer : conns.serving ∪ conns.leaving.erase conn ⊆ conns.serving ∪ conns.leaving :=
    Finset.union_subset_union_right (Finset.erase_subset _ _)
  constructor
  · simp only [Connections.leave, counted.active, Finset.erase_union_distrib,
      Finset.erase_eq_of_notMem notServing]
  · simp only [Connections.leave, Finset.card_erase_of_mem inside,
      Finset.card_insert_of_notMem notLeft, counted.clients]
    omega
  · intro other among
    have known := counted.known other
    simp only [Connections.leave, Finset.mem_union, Finset.mem_erase, Finset.mem_insert] at *
    grind
  · exact counted.apart.mono_right (Finset.erase_subset _ _)
  · refine Finset.disjoint_insert_right.mpr ⟨?_, counted.gone.mono_left fewer⟩
    simp [Connections.leave, notServing]
  · exact (Finset.card_erase_le).trans counted.bounded
  · exact counted.closed

theorem Counted.done (counted : conns.Counted limit) (inside : conn ∈ conns.left) :
    (conns.done conn).Counted limit := by
  have positive := Finset.card_pos.mpr ⟨conn, inside⟩
  refine ⟨counted.active, ?_, ?_, counted.apart, ?_, counted.bounded, counted.closed⟩
  · simp only [Connections.done, Finset.card_erase_of_mem inside, counted.clients]
    omega
  · exact fun other among => counted.known other
      (Finset.union_subset_union_right (Finset.erase_subset _ _) among)
  · exact counted.gone.mono_right (Finset.erase_subset _ _)

/-- When `Wait` returns, all connections are closed and no handler is left. -/
theorem Counted.drained (counted : conns.Counted limit) (waited : conns.clientsWg = 0) :
    conns.active = ∅ ∧ conns.serving = ∅ ∧ conns.leaving = ∅ ∧ conns.left = ∅ ∧
      ∀ conn < conns.number, conn ∈ conns.closed := by
  have total := counted.clients
  rw [waited] at total
  have serving : conns.serving = ∅ := Finset.card_eq_zero.mp (by omega)
  have leaving : conns.leaving = ∅ := Finset.card_eq_zero.mp (by omega)
  have left : conns.left = ∅ := Finset.card_eq_zero.mp (by omega)
  refine ⟨?_, serving, leaving, left, fun conn below => ?_⟩
  · rw [counted.active, serving, leaving, Finset.empty_union]
  · refine (counted.closed conn below).resolve_left ?_
    rw [serving]
    exact Finset.notMem_empty conn

end Connections

end Carrot
