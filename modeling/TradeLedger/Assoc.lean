/-
Values kept by key, one to a key. Keys stay in the order in which they were first set.
-/
namespace TradeLedger

/-- Values by key. -/
structure Assoc (κ α : Type) where
  entries : List (κ × α)
  deriving DecidableEq, Repr

namespace Assoc

variable {κ α : Type} [DecidableEq κ]

def empty : Assoc κ α := ⟨[]⟩

/-- The first value of a key. -/
def find (k : κ) : List (κ × α) → Option α
  | [] => none
  | (l, a) :: rest => if k = l then some a else find k rest

/-- Replaces the value of a key, or puts the key last. -/
def put (k : κ) (a : α) : List (κ × α) → List (κ × α)
  | [] => [(k, a)]
  | (l, b) :: rest => if k = l then (l, a) :: rest else (l, b) :: put k a rest

def get? (m : Assoc κ α) (k : κ) : Option α := find k m.entries

def set (m : Assoc κ α) (k : κ) (a : α) : Assoc κ α := ⟨put k a m.entries⟩

def erase (m : Assoc κ α) (k : κ) : Assoc κ α := ⟨m.entries.filter (·.1 ≠ k)⟩

def contains (m : Assoc κ α) (k : κ) : Bool := (m.get? k).isSome

@[simp] theorem get?_empty (k : κ) : (empty : Assoc κ α).get? k = none := rfl

theorem find_put (k l : κ) (a : α) (es : List (κ × α)) :
    find l (put k a es) = if l = k then some a else find l es := by
  induction es with
  | nil => by_cases h : l = k <;> simp [put, find, h]
  | cons e rest ih =>
    obtain ⟨m, b⟩ := e
    by_cases hkm : k = m
    · subst hkm
      by_cases hl : l = k <;> simp [put, find, hl]
    · by_cases hlm : l = m
      · subst hlm; simp [put, find, hkm, Ne.symm hkm]
      · simp [put, find, hkm, hlm, ih]

theorem get?_set (m : Assoc κ α) (k l : κ) (a : α) :
    (m.set k a).get? l = if l = k then some a else m.get? l := find_put k l a m.entries

theorem find_filter (k l : κ) (es : List (κ × α)) :
    find l (es.filter (·.1 ≠ k)) = if l = k then none else find l es := by
  induction es with
  | nil => simp [find]
  | cons e rest ih =>
    obtain ⟨m, b⟩ := e
    by_cases hmk : m = k
    · subst hmk
      by_cases hl : l = m <;> simp [find, hl] at ih ⊢ <;> exact ih
    · by_cases hlm : l = m
      · subst hlm; simp [find, hmk]
      · simp [find, hmk, hlm] at ih ⊢; exact ih

theorem get?_erase (m : Assoc κ α) (k l : κ) :
    (m.erase k).get? l = if l = k then none else m.get? l := find_filter k l m.entries

end Assoc

end TradeLedger
