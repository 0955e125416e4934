import Mathlib.Data.List.Forall2

/-!
# Lists of results that may be missing

A text is put together from the texts of its parts, and it is missing if one of them is. What such a
list of parts comes to is described element by element: each result is that of the element in its
place (`mapM_eq_some_iff`). So lists that come to the same results are compared one element at a
time.
-/

namespace FloatLang

variable {α β γ : Type} {f : α → Option γ} {g : β → Option γ} {l : List α} {l' : List β}
  {cs : List γ}

theorem mapM_eq_some_iff : l.mapM f = some cs ↔ List.Forall₂ (fun a c ↦ f a = some c) l cs := by
  induction l generalizing cs with
  | nil =>
    rw [List.mapM_nil, List.forall₂_nil_left_iff]
    exact Option.some_inj.trans eq_comm
  | cons a l ih =>
    rw [List.mapM_cons, List.forall₂_cons_left_iff]
    constructor
    · intro h
      obtain ⟨c, hc, h⟩ := Option.bind_eq_some_iff.mp h
      obtain ⟨cs', hcs', h⟩ := Option.bind_eq_some_iff.mp h
      exact ⟨c, cs', hc, ih.mp hcs', (Option.some.inj h).symm⟩
    · rintro ⟨c, cs', hc, hcs', rfl⟩
      rw [hc, ih.mpr hcs']
      rfl

theorem isSome_mapM (h : ∀ a ∈ l, (f a).isSome = true) : (l.mapM f).isSome = true := by
  induction l with
  | nil => rfl
  | cons a l ih =>
    obtain ⟨c, hc⟩ := Option.isSome_iff_exists.mp (h a List.mem_cons_self)
    obtain ⟨cs, hcs⟩ := Option.isSome_iff_exists.mp (ih fun b hb ↦ h b (List.mem_cons_of_mem _ hb))
    rw [List.mapM_cons, hc, hcs]
    rfl

theorem map_of_mapM_eq_some (h : l.mapM f = some cs) : l.map f = cs.map some := by
  rw [← List.forall₂_eq_eq_eq, List.forall₂_map_left_iff, List.forall₂_map_right_iff]
  exact mapM_eq_some_iff.mp h

theorem exists_mem_of_mapM (h : l.mapM f = some cs) {c : γ} (hc : c ∈ cs) :
    ∃ a ∈ l, f a = some c := by
  have hmem : some c ∈ l.map f := by
    rw [map_of_mapM_eq_some h]
    exact List.mem_map_of_mem hc
  exact List.mem_map.mp hmem

theorem mapM_congr_forall₂ (h : List.Forall₂ (fun a b ↦ f a = g b) l l') :
    l.mapM f = l'.mapM g := by
  induction h with
  | nil => rfl
  | cons hab _ ih => rw [List.mapM_cons, List.mapM_cons, hab, ih]

/-- Lists with the same results are related if elements with the same result are. -/
theorem forall₂_of_mapM_eq {R : α → β → Prop} (h : l.mapM f = some cs) (h' : l'.mapM g = some cs)
    (hR : ∀ a ∈ l, ∀ b ∈ l', ∀ c, f a = some c → g b = some c → R a b) : List.Forall₂ R l l' := by
  rw [mapM_eq_some_iff] at h h'
  induction h generalizing l' with
  | nil =>
    cases h'
    exact .nil
  | cons ha _ ih =>
    cases h' with
    | cons hb h' =>
      refine .cons (hR _ List.mem_cons_self _ List.mem_cons_self _ ha hb) (ih h' ?_)
      exact fun a ha b hb ↦ hR a (List.mem_cons_of_mem _ ha) b (List.mem_cons_of_mem _ hb)

end FloatLang
