import Mathlib.Data.List.Forall2
import Mathlib.Data.List.Nodup

/-!
# Lists kept in step

Two lists whose elements correspond one by one, where an element of the
first is replaced or a new one is put in front of both, and lists whose
elements have distinct names. At the end, looking for an element, taking one
out and putting one in.
-/

namespace List

variable {α β γ : Type}

section InStep

variable {R : α → β → Prop} {l : List α} {l' : List β} {a : α} {b : β} {i : ℕ}

/-- Corresponding elements are at the same place. -/
theorem Forall₂.exists_getElem? (h : Forall₂ R l l') (ha : l[i]? = some a) :
    ∃ b, l'[i]? = some b ∧ R a b := by
  induction h generalizing i with
  | nil => simp at ha
  | @cons c d l l' hcd _ ih =>
    cases i with
    | zero =>
      rw [getElem?_cons_zero, Option.some.injEq] at ha
      subst ha
      exact ⟨d, rfl, hcd⟩
    | succ i => exact ih ha

/-- An element may be replaced by another that corresponds. -/
theorem Forall₂.set (h : Forall₂ R l l') (hb : l'[i]? = some b) (hab : R a b) :
    Forall₂ R (l.set i a) l' := by
  induction h generalizing i with
  | nil => exact .nil
  | @cons c d l l' hcd htail ih =>
    cases i with
    | zero =>
      rw [getElem?_cons_zero, Option.some.injEq] at hb
      subst hb
      exact .cons hab htail
    | succ i => exact .cons hcd (ih hb)

/-- Two that correspond are put in front, and the lists cut at the same
length again. -/
theorem Forall₂.push {n : ℕ} (hab : R a b) (h : Forall₂ R l (l'.take n)) :
    Forall₂ R ((a :: l).take n) ((b :: l').take n) := by
  cases n with
  | zero => exact .nil
  | succ n =>
    have hcut := forall₂_take n h
    rw [take_take, Nat.min_eq_left (Nat.le_succ n)] at hcut
    exact .cons hab hcut

/-- An element of an image has one that it is the image of, at its place. -/
theorem exists_getElem?_of_map {f : α → β} (h : l.map f = l') (hb : l'[i]? = some b) :
    ∃ a, l[i]? = some a ∧ f a = b := by
  subst h
  rwa [getElem?_map, Option.map_eq_some_iff] at hb

end InStep

section Names

variable {name : α → γ} {l : List α} {a b c : α} {i : ℕ}

/-- Replacing an element by one of the same name keeps the names. -/
theorem map_set_of_eq (ha : l[i]? = some a) (hname : name b = name a) :
    (l.set i b).map name = l.map name := by
  induction l generalizing i with
  | nil => rfl
  | cons d l ih =>
    cases i with
    | zero =>
      rw [getElem?_cons_zero, Option.some.injEq] at ha
      subst ha
      rw [set_cons_zero, map_cons, map_cons, hname]
    | succ i => rw [set_cons_succ, map_cons, map_cons, ih ha]

/-- The element of that name is then the new one. -/
theorem eq_of_mem_set (hnodup : (l.map name).Nodup) (ha : l[i]? = some a)
    (hname : name b = name a) (hc : c ∈ l.set i b) (hcname : name c = name a) : c = b := by
  have hset : (l.set i b)[i]? = some b := by
    obtain ⟨hi, -⟩ := getElem?_eq_some_iff.mp ha
    rw [getElem?_set_self hi]
  rw [← map_set_of_eq ha hname] at hnodup
  exact inj_on_of_nodup_map hnodup hc (mem_of_getElem? hset) (hcname.trans hname.symm)

/-- An element that is taken out takes its name with it. -/
theorem name_ne_of_mem_eraseIdx (hnodup : (l.map name).Nodup) (ha : l[i]? = some a)
    (hc : c ∈ l.eraseIdx i) : name c ≠ name a := by
  intro heq
  obtain ⟨j, hne, hj⟩ := mem_eraseIdx_iff_getElem?.mp hc
  obtain ⟨hi, -⟩ := getElem?_eq_some_iff.mp ha
  refine hne ((getElem?_inj (by rw [length_map]; exact hi) hnodup).mp ?_).symm
  rw [getElem?_map, getElem?_map, ha, hj, Option.map_some, Option.map_some, heq]

end Names

/-- The first element found is the one at the first place found. -/
theorem find?_eq_map_findFinIdx? (p : α → Bool) (l : List α) :
    l.find? p = (l.findFinIdx? p).map l.get := by
  induction l with
  | nil => rfl
  | cons a l ih =>
    rw [find?_cons, findFinIdx?_cons]
    cases p a with
    | true => rfl
    | false =>
      rw [if_neg Bool.false_ne_true, Option.map_map]
      exact ih

/-- An element with nothing like it before it is the first that is found. -/
theorem findFinIdx?_of_append_cons {p : α → Bool} {l before after : List α} {a : α}
    (h : l = before ++ a :: after) (hbefore : ∀ b ∈ before, ¬ p b = true) (ha : p a = true) :
    ∃ place : Fin l.length, l.findFinIdx? p = some place ∧ place.val = before.length ∧
      l.get place = a := by
  have hlt : before.length < l.length := by
    rw [h, length_append, length_cons]
    omega
  have hget : l[before.length] = a := by
    simp only [h, getElem_append_right (Nat.le_refl _), Nat.sub_self, getElem_cons_zero]
  refine ⟨⟨before.length, hlt⟩, findFinIdx?_eq_some_iff.mpr ⟨?_, ?_⟩, rfl, hget⟩
  · exact hget.symm ▸ ha
  · intro j hj
    have hj : j.val < before.length := hj
    have hmem : l[j.val] ∈ before := by
      simp only [h, getElem_append_left hj]
      exact getElem_mem hj
    exact hbefore _ hmem

/-- What comes after an element does not come before it. -/
theorem Nodup.not_mem_of_suffix {l s t : List α} {a b : α} (hnodup : l.Nodup) (ha : a :: s <:+ l)
    (hb : b :: t <:+ l) (hmem : b ∈ s) : a ∉ b :: t := by
  have hsnodup := hnodup.sublist ha.sublist
  have htnodup := hnodup.sublist hb.sublist
  rw [nodup_cons] at hsnodup htnodup
  intro hat
  rcases suffix_or_suffix_of_suffix ha hb with h | h
  · rcases suffix_cons_iff.mp h with heq | hin
    · rw [(cons.inj heq).1] at hsnodup
      exact hsnodup.1 hmem
    · exact htnodup.1 (hin.subset (mem_cons_of_mem a hmem))
  · rcases suffix_cons_iff.mp h with heq | hin
    · rw [← (cons.inj heq).1] at hsnodup
      exact hsnodup.1 hmem
    · exact hsnodup.1 (hin.subset hat)

/-- Taking the first one out that has a value leaves the values without it. -/
theorem map_eraseP_eq_erase [DecidableEq β] (f : α → β) (l : List α) (b : β) :
    (l.eraseP (fun a => f a = b)).map f = (l.map f).erase b := by
  rw [erase_eq_eraseP', eraseP_map]
  rfl

/-- What is looked for is not the one that is taken out. -/
theorem find?_eraseP_of_ne {p q : α → Bool} {l : List α}
    (h : ∀ a, p a = true → q a = false) : (l.eraseP p).find? q = l.find? q := by
  induction l with
  | nil => rfl
  | cons a l ih =>
    cases hp : p a with
    | true => rw [eraseP_cons_of_pos hp, find?_cons, h a hp]
    | false =>
      rw [eraseP_cons_of_neg (by simp [hp]), find?_cons, find?_cons, ih]

/-- What is behind the first elements is behind the one that is put in. -/
theorem insertIdx_append (xs ys : List α) (v : α) :
    (xs ++ ys).insertIdx xs.length v = xs ++ v :: ys := by
  induction xs with
  | nil => rfl
  | cons x xs ih => exact congrArg (x :: ·) ih

theorem exists_append_singleton {l : List α} (h : 0 < l.length) :
    ∃ init last, l = init ++ [last] :=
  have hne := ne_nil_of_length_pos h
  ⟨l.dropLast, l.getLast hne, (dropLast_append_getLast hne).symm⟩

end List
