/-
SensorScript.Proofs.Forall2 — lists that are related item by item.

What reading, linking and encoding do to a list they do to each of its items.
These lemmas chain two such relations, go from an item back to the one it was
made from, carry over what holds of every two items, and choose items for a
whole list.
-/
import Mathlib.Data.List.Forall2

namespace SensorScript

variable {α β γ : Type} {R : α → β → Prop} {S : β → γ → Prop} {as : List α} {bs : List β}
  {cs : List γ}

theorem forall₂_comp (h : List.Forall₂ R as bs) (h' : List.Forall₂ S bs cs) :
    List.Forall₂ (fun a c => ∃ b, R a b ∧ S b c) as cs := by
  induction h generalizing cs with
  | nil => cases h'; exact .nil
  | cons hab _ ih =>
    cases h' with
    | cons hbc h' => exact .cons ⟨_, hab, hbc⟩ (ih h')

theorem exists_getElem?_of_forall₂ (h : List.Forall₂ R as bs) {i : Nat} {b : β}
    (hb : bs[i]? = some b) : ∃ a, as[i]? = some a ∧ R a b := by
  induction h generalizing i with
  | nil => cases hb
  | cons hab _ ih =>
    cases i with
    | zero => cases hb; exact ⟨_, rfl, hab⟩
    | succ i => exact ih hb

theorem exists_mem_of_forall₂ (h : List.Forall₂ R as bs) {b : β} (hb : b ∈ bs) :
    ∃ a ∈ as, R a b := by
  obtain ⟨i, hi⟩ := List.getElem?_of_mem hb
  obtain ⟨a, ha, hab⟩ := exists_getElem?_of_forall₂ h hi
  exact ⟨a, List.mem_of_getElem? ha, hab⟩

/-- Related items can be told apart from others by standing in their lists. -/
theorem forall₂_imp_mem {T : α → β → Prop} (h : List.Forall₂ R as bs)
    (himp : ∀ a ∈ as, ∀ b ∈ bs, R a b → T a b) : List.Forall₂ T as bs := by
  induction h with
  | nil => exact .nil
  | cons hab _ ih =>
    refine .cons (himp _ (.head _) _ (.head _) hab) (ih ?_)
    intro a ha b hb
    exact himp a (.tail _ ha) b (.tail _ hb)

/-- What holds of every two items of the one list holds of those of the other. -/
theorem pairwise_of_forall₂ {P : α → α → Prop} {Q : β → β → Prop} (h : List.Forall₂ R as bs)
    (hP : as.Pairwise P) (hQ : ∀ {a b a' b'}, R a b → R a' b' → P a a' → Q b b') :
    bs.Pairwise Q := by
  induction h with
  | nil => exact .nil
  | cons hab h ih =>
    obtain ⟨ha, hP⟩ := List.pairwise_cons.mp hP
    refine .cons (fun b' hb' => ?_) (ih hP)
    obtain ⟨a', ha', hab'⟩ := exists_mem_of_forall₂ h hb'
    exact hQ hab hab' (ha a' ha')

/-- What is related to two lists one after the other is two lists as well. -/
theorem exists_append_of_forall₂ {as' : List α} (h : List.Forall₂ R (as ++ as') bs) :
    ∃ cs cs', List.Forall₂ R as cs ∧ List.Forall₂ R as' cs' ∧ bs = cs ++ cs' := by
  induction as generalizing bs with
  | nil => exact ⟨[], bs, .nil, h, rfl⟩
  | cons a as ih =>
    cases h with
    | cons hab h =>
      obtain ⟨cs, cs', hcs, hcs', rfl⟩ := ih h
      exact ⟨_ :: cs, cs', .cons hab hcs, hcs', rfl⟩

/-- What can be chosen for every two related items can be chosen for the lists. -/
theorem exists_forall₂ {S : α → γ → Prop} {T : β → γ → Prop}
    (h : List.Forall₂ (fun a b => ∃ c, S a c ∧ T b c) as bs) :
    ∃ cs, List.Forall₂ S as cs ∧ List.Forall₂ T bs cs := by
  induction h with
  | nil => exact ⟨[], .nil, .nil⟩
  | cons hc _ ih =>
    obtain ⟨c, hac, hbc⟩ := hc
    obtain ⟨cs, has, hbs⟩ := ih
    exact ⟨c :: cs, .cons hac has, .cons hbc hbs⟩

end SensorScript
