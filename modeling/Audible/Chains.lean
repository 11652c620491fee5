import Mathlib.Data.List.Basic
import Mathlib.Logic.Function.Basic

set_option autoImplicit false

/- Singly linked lists: nodes each with a link to the next one, or to nothing. -/
namespace Chains

variable {A : Type} {next : A → Option A} {p q : Option A} {a b x : A} {xs ys front back : List A}

/-- The links lead from a pointer over the members of a list to its end. -/
def Leads (next : A → Option A) : Option A → List A → Prop
  | pointer, [] => pointer = none
  | pointer, x :: xs => pointer = some x ∧ Leads next (next x) xs

@[simp] theorem leads_nil : Leads next p [] ↔ p = none := .rfl

@[simp] theorem leads_cons : Leads next p (x :: xs) ↔ p = some x ∧ Leads next (next x) xs := .rfl

theorem Leads.unique (leads : Leads next p xs) (leads' : Leads next p ys) : xs = ys := by
  induction xs generalizing p ys with
  | nil =>
      cases ys with
      | nil => rfl
      | cons y ys =>
          rw [leads_nil.mp leads] at leads'
          cases leads'.1
  | cons x xs ih =>
      obtain ⟨rfl, later⟩ := leads
      cases ys with
      | nil => cases leads_nil.mp leads'
      | cons y ys =>
          obtain ⟨same, later'⟩ := leads'
          cases same
          rw [ih later later']

/-- What follows a member. -/
theorem Leads.after (leads : Leads next p (front ++ x :: back)) : Leads next (next x) back := by
  induction front generalizing p with
  | nil => exact leads.2
  | cons b front ih => exact ih leads.2

/-- A list that ends does not lead back. -/
theorem Leads.not_mem (leads : Leads next (next a) xs) : a ∉ xs := by
  intro member
  obtain ⟨front, back, rfl⟩ := List.append_of_mem member
  have same := congrArg List.length (leads.after.unique leads)
  rw [List.length_append, List.length_cons] at same
  omega

theorem Leads.nodup (leads : Leads next p xs) : xs.Nodup := by
  induction xs generalizing p with
  | nil => exact List.nodup_nil
  | cons x xs ih => exact List.nodup_cons.mpr ⟨leads.2.not_mem, ih leads.2⟩

section Update

variable [DecidableEq A]

/-- A link of a node that is not on the list changes. -/
theorem Leads.update (leads : Leads next p xs) (off : a ∉ xs) :
    Leads (Function.update next a q) p xs := by
  induction xs generalizing p with
  | nil => exact leads
  | cons x xs ih =>
      rw [List.mem_cons, not_or] at off
      refine ⟨leads.1, ?_⟩
      rw [Function.update_of_ne (Ne.symm off.1)]
      exact ih leads.2 off.2

/-- The node before `x` gets the link of `x`. -/
theorem Leads.unlink (leads : Leads next (next a) (front ++ x :: back)) :
    Leads (Function.update next (front.getLastD a) (next x))
      (Function.update next (front.getLastD a) (next x) a) (front ++ back) := by
  induction front generalizing a with
  | nil =>
      have off := leads.not_mem
      rw [List.nil_append, List.mem_cons, not_or] at off
      rw [List.getLastD_nil, Function.update_self]
      exact leads.2.update off.2
  | cons b front ih =>
      have off := leads.not_mem
      have other : a ≠ front.getLastD b := by
        rintro rfl
        refine off ?_
        rw [List.cons_append, ← List.cons_append]
        exact List.mem_append_left _ List.getLastD_mem_cons
      rw [List.getLastD_cons, Function.update_of_ne other]
      exact ⟨leads.1, ih leads.2⟩

/-- The node that was taken off still leads to what followed it. -/
theorem Leads.unlinked (leads : Leads next (next a) (front ++ x :: back)) :
    Leads (Function.update next (front.getLastD a) (next x))
      (Function.update next (front.getLastD a) (next x) x) back := by
  have once : (a :: (front ++ x :: back)).Nodup := List.nodup_cons.mpr ⟨leads.not_mem, leads.nodup⟩
  have last : front.getLastD a ∈ a :: front := List.getLastD_mem_cons
  rw [← List.cons_append, List.nodup_append] at once
  have apart := once.2.2 _ last
  rw [Function.update_of_ne (apart x List.mem_cons_self).symm]
  exact leads.after.update fun member => apart _ (List.mem_cons_of_mem _ member) rfl

/-- A new node is put at the end. -/
theorem Leads.link (leads : Leads next (next a) xs) (new : b ∉ a :: xs) :
    Leads (Function.update (Function.update next b none) (xs.getLastD a) (some b))
      (Function.update (Function.update next b none) (xs.getLastD a) (some b) a) (xs ++ [b]) := by
  induction xs generalizing a with
  | nil =>
      have other : b ≠ a := fun same => new (same ▸ List.mem_cons_self)
      rw [List.getLastD_nil, Function.update_self]
      refine ⟨rfl, ?_⟩
      rw [Function.update_of_ne other, Function.update_self]
      rfl
  | cons x xs ih =>
      rw [List.mem_cons, not_or] at new
      have other : a ≠ xs.getLastD x := by
        rintro rfl
        exact leads.not_mem List.getLastD_mem_cons
      rw [List.getLastD_cons, Function.update_of_ne other, Function.update_of_ne (Ne.symm new.1)]
      exact ⟨leads.1, ih leads.2 new.2⟩

end Update

end Chains
