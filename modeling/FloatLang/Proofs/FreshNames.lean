import FloatLang.Ssa.Naming
import Mathlib

/-!
# Names made different

The names that are tried for a base are the bare one and then the numbered ones; the search takes
the first that is free. It is over as many numbers as there are taken names, and that is enough:
the candidates are pairwise different, so that they cannot all be taken. `exists_firstFree` says
this, and that there is but one first free candidate is what everything else rests on. In
particular, taking more names changes the result exactly if the result is among them.

A list of names is made different from left to right, and `namesOver` is the variant in which names
that have been there before are overwritten one after the other: then a name also has to differ from
the old ones that stand behind it. The two agree unless a name comes up that an old one behind it
has, which is `namesOver_eq_iff`.

That the search is over a bounded range of numbers is a convenience. `Searches` is the search that
tries one number after the other without a bound; it ends, with the name that the bounded one finds.
-/

namespace FloatLang.Ssa

/-! ## Candidates -/

/-- The names that are tried for `base`, in order. -/
def candidate (base : String) : Nat → String
  | 0 => base
  | n + 1 => base ++ toString (n + 1)

theorem isDigit_of_mem_toString {n : Nat} {c : Char} (hc : c ∈ (toString n).toList) :
    c.isDigit = true := by
  rw [Nat.toString_eq_ofList_toDigits, String.toList_ofList] at hc
  exact Nat.isDigit_of_mem_toDigits (by decide) (by decide) hc

theorem candidate_inj {base : String} {n n' : Nat} :
    candidate base n = candidate base n' ↔ n = n' := by
  have hnumbered : ∀ k, base ≠ base ++ toString (k + 1) := by
    intro k hk
    have hempty : base ++ "" = base ++ toString (k + 1) := by rw [String.append_empty, ← hk]
    exact Nat.repr_ne_empty (Eq.symm ((String.append_right_inj base).mp hempty))
  refine ⟨fun h ↦ ?_, congrArg _⟩
  cases n with
  | zero =>
    cases n' with
    | zero => rfl
    | succ n' => exact absurd h (hnumbered n')
  | succ n =>
    cases n' with
    | zero => exact absurd h.symm (hnumbered n)
    | succ n' => exact Nat.repr_inj.mp ((String.append_right_inj base).mp h)

/-- A numbered candidate ends with a digit, so a name that does not is a candidate of no other
base. -/
theorem eq_of_candidate_eq {base x : String} {n : Nat}
    (hx : ∀ c ∈ x.toList.getLast?, c.isDigit = false) (h : candidate base n = x) : base = x := by
  cases n with
  | zero => exact h
  | succ n =>
    have htext : x.toList = base.toList ++ Nat.toDigits 10 (n + 1) := by
      rw [← h, candidate, String.toList_append, Nat.toString_eq_ofList_toDigits,
        String.toList_ofList]
    have hne : Nat.toDigits 10 (n + 1) ≠ [] := Nat.toDigits_ne_nil
    have hlast : x.toList.getLast? = some ((Nat.toDigits 10 (n + 1)).getLast hne) := by
      rw [htext, List.getLast?_append_of_ne_nil _ hne, List.getLast?_eq_some_getLast hne]
    have hdigit := Nat.isDigit_of_mem_toDigits (by decide) (by decide) (List.getLast_mem hne)
    rw [hx _ hlast] at hdigit
    cases hdigit

/-- The candidate with the number `n` is the first one that is not taken. -/
structure FirstFree (taken : List String) (base : String) (n : Nat) : Prop where
  free : candidate base n ∉ taken
  earlier : ∀ k < n, candidate base k ∈ taken

variable {taken taken' : List String} {base : String} {n n' : Nat}

theorem FirstFree.unique (h : FirstFree taken base n) (h' : FirstFree taken base n') : n = n' := by
  rcases Nat.lt_trichotomy n n' with hlt | heq | hgt
  · exact absurd (h'.earlier n hlt) h.free
  · exact heq
  · exact absurd (h.earlier n' hgt) h'.free

/-- Not all of one more candidates than there are taken names can be taken. -/
private theorem exists_candidate_notMem (taken : List String) (base : String) :
    ∃ n ≤ taken.length, candidate base n ∉ taken := by
  by_contra hall
  push Not at hall
  have hnodup : ((List.range (taken.length + 1)).map (candidate base)).Nodup :=
    List.nodup_range.map fun _ _ ↦ candidate_inj.mp
  have hsub : (List.range (taken.length + 1)).map (candidate base) ⊆ taken := by
    intro x hx
    obtain ⟨n, hn, rfl⟩ := List.mem_map.mp hx
    exact hall n (Nat.le_of_lt_succ (List.mem_range.mp hn))
  have hle := (hnodup.subperm hsub).length_le
  rw [List.length_map, List.length_range] at hle
  omega

private theorem exists_of_findSome?_range {α : Type} {f : Nat → Option α} {length : Nat} {x : α}
    (h : (List.range length).findSome? f = some x) : ∃ n, f n = some x ∧ ∀ k < n, f k = none := by
  induction length with
  | zero => cases h
  | succ length ih =>
    rw [List.range_succ, List.findSome?_append] at h
    cases hbefore : (List.range length).findSome? f with
    | some y =>
      rw [hbefore, Option.some_or] at h
      exact ih (hbefore.trans h)
    | none =>
      rw [hbefore, Option.none_or, List.findSome?_singleton] at h
      exact ⟨length, h, fun k hk ↦ List.findSome?_eq_none_iff.mp hbefore k (List.mem_range.mpr hk)⟩

theorem exists_firstFree (taken : List String) (base : String) :
    ∃ n, FirstFree taken base n ∧ freshName taken base = candidate base n := by
  by_cases hbase : base ∈ taken
  · have hnone : ∀ {n}, (if base ++ toString (n + 1) ∈ taken then none
        else some (base ++ toString (n + 1))) = none → candidate base (n + 1) ∈ taken := by
      intro n hn
      by_contra hfree
      rw [if_neg (show base ++ toString (n + 1) ∉ taken from hfree)] at hn
      cases hn
    rw [freshName, if_pos hbase]
    cases hfound : (List.range taken.length).findSome? fun n ↦
        if base ++ toString (n + 1) ∈ taken then none else some (base ++ toString (n + 1)) with
    | none =>
      -- the bare name and all the numbered ones would be taken
      obtain ⟨n, hn, hfree⟩ := exists_candidate_notMem taken base
      cases n with
      | zero => exact absurd hbase hfree
      | succ n =>
        exact absurd (hnone (List.findSome?_eq_none_iff.mp hfound n (List.mem_range.mpr hn))) hfree
    | some x =>
      obtain ⟨n, hx, hbefore⟩ := exists_of_findSome?_range hfound
      have hfree : base ++ toString (n + 1) ∉ taken := by
        intro htaken
        rw [if_pos htaken] at hx
        cases hx
      rw [if_neg hfree, Option.some.injEq] at hx
      refine ⟨n + 1, ⟨hfree, fun k hk ↦ ?_⟩, hx.symm⟩
      cases k with
      | zero => exact hbase
      | succ k => exact hnone (hbefore k (Nat.lt_of_succ_lt_succ hk))
  · exact ⟨0, ⟨hbase, fun k hk ↦ absurd hk (Nat.not_lt_zero k)⟩, freshName_of_notMem hbase⟩

/-! ## Fresh names -/

theorem freshName_notMem (taken : List String) (base : String) : freshName taken base ∉ taken := by
  obtain ⟨n, hn, heq⟩ := exists_firstFree taken base
  exact heq ▸ hn.free

/-- Taking more names changes the result exactly if the result is among them. -/
theorem freshName_eq_freshName_iff (hsub : taken ⊆ taken') :
    freshName taken' base = freshName taken base ↔ freshName taken base ∉ taken' := by
  constructor
  · intro heq
    exact heq ▸ freshName_notMem taken' base
  · intro hfree
    obtain ⟨n, hn, heq⟩ := exists_firstFree taken base
    obtain ⟨n', hn', heq'⟩ := exists_firstFree taken' base
    have hlater : FirstFree taken' base n := ⟨heq ▸ hfree, fun k hk ↦ hsub (hn.earlier k hk)⟩
    rw [heq, heq', hn'.unique hlater]

/-! ## Lists of names -/

/-- Names for further parameters, behind the ones given before, each made different from the names
before it. -/
def namesOnto (named params : List String) : List String :=
  params.foldl (fun named p ↦ named ++ [freshName named p]) named

/-- Names for further parameters, behind the ones given before, each made different from the names
before it and from those of the old names that stand behind the one it takes the place of. -/
def namesOver (named : List String) : List String → List String → List String
  | _ :: old, p :: params => namesOver (named ++ [freshName (named ++ old) p]) old params
  | _, _ => named

theorem freshParams_eq_namesOnto (params : List String) :
    freshParams params = namesOnto [] params := rfl

private theorem namesOnto_cons (named : List String) (p : String) (params : List String) :
    namesOnto named (p :: params) = namesOnto (named ++ [freshName named p]) params := rfl

private theorem prefix_namesOnto (named params : List String) :
    named <+: namesOnto named params := by
  induction params generalizing named with
  | nil => exact List.prefix_rfl
  | cons p params ih => exact (List.prefix_append _ _).trans (ih _)

private theorem prefix_namesOver (named old params : List String) :
    named <+: namesOver named old params := by
  induction params generalizing named old with
  | nil => cases old <;> exact List.prefix_rfl
  | cons p params ih =>
    cases old with
    | nil => exact List.prefix_rfl
    | cons o old => exact (List.prefix_append _ _).trans (ih _ _)

private theorem getElem?_of_prefix_concat {names named : List String} {x : String}
    (h : named ++ [x] <+: names) : names[named.length]? = some x := by
  obtain ⟨behind, rfl⟩ := h
  simp

theorem nodup_namesOnto {named : List String} (hnamed : named.Nodup) (params : List String) :
    (namesOnto named params).Nodup := by
  induction params generalizing named with
  | nil => exact hnamed
  | cons p params ih =>
    refine ih (List.nodup_append.mpr ⟨hnamed, List.nodup_singleton _, fun x hx y hy ↦ ?_⟩)
    rintro rfl
    rw [List.mem_singleton.mp hy] at hx
    exact freshName_notMem named p hx

theorem nodup_freshParams (params : List String) : (freshParams params).Nodup :=
  nodup_namesOnto List.nodup_nil params

theorem namesOnto_eq_append {named params : List String} (h : (named ++ params).Nodup) :
    namesOnto named params = named ++ params := by
  induction params generalizing named with
  | nil => exact (List.append_nil named).symm
  | cons p params ih =>
    have hp : p ∉ named := fun hp ↦ (List.nodup_append.mp h).2.2 p hp p List.mem_cons_self rfl
    rw [namesOnto_cons, freshName_of_notMem hp, ih (by simpa using h), List.append_assoc]
    rfl

theorem freshParams_eq_self {params : List String} (h : params.Nodup) :
    freshParams params = params := namesOnto_eq_append h

/-- What was to be named is a name, of an earlier one if not of its own. -/
theorem mem_namesOnto {named params : List String} {p : String} (hp : p ∈ params) :
    p ∈ namesOnto named params := by
  induction params generalizing named with
  | nil => cases hp
  | cons q params ih =>
    rw [namesOnto_cons]
    rcases List.mem_cons.mp hp with rfl | hp
    · refine (prefix_namesOnto _ params).subset ?_
      by_cases hnamed : p ∈ named
      · exact List.mem_append_left _ hnamed
      · rw [freshName_of_notMem hnamed]
        exact List.mem_append_right _ (List.mem_singleton_self p)
    · exact ih hp

theorem exists_candidate_of_mem_namesOver {named old params : List String} {x : String}
    (hx : x ∈ namesOver named old params) : x ∈ named ∨ ∃ p ∈ params, ∃ n, x = candidate p n := by
  induction params generalizing named old with
  | nil => cases old <;> exact .inl hx
  | cons p params ih =>
    cases old with
    | nil => exact .inl hx
    | cons o old =>
      rcases ih hx with hnamed | ⟨q, hq, hn⟩
      · rcases List.mem_append.mp hnamed with hnamed | hlast
        · exact .inl hnamed
        · obtain ⟨n, -, heq⟩ := exists_firstFree (named ++ old) p
          exact .inr ⟨p, List.mem_cons_self, n, (List.mem_singleton.mp hlast).trans heq⟩
      · exact .inr ⟨q, List.mem_cons_of_mem _ hq, hn⟩

/-- What a name over old ones is made different from: the names before it, and the old ones behind
it. -/
theorem getElem?_namesOver {named old params : List String} (hlength : old.length = params.length)
    {i : Nat} {p : String} (hp : params[i]? = some p) :
    (namesOver named old params)[named.length + i]? =
      some (freshName ((namesOver named old params).take (named.length + i) ++ old.drop (i + 1)) p)
    := by
  induction params generalizing named old i with
  | nil => cases hp
  | cons q params ih =>
    cases old with
    | nil => cases hlength
    | cons o old =>
      cases i with
      | zero =>
        obtain rfl : q = p := Option.some.inj hp
        obtain ⟨behind, hbehind⟩ :=
          prefix_namesOver (named ++ [freshName (named ++ old) q]) old params
        rw [namesOver, ← hbehind]
        simp
      | succ i =>
        have hrest :=
          @ih (named ++ [freshName (named ++ old) q]) old (Nat.succ.inj hlength) i hp
        rw [List.length_append, List.length_singleton, Nat.add_assoc, Nat.add_comm 1] at hrest
        exact hrest

/-- **When names do not depend on the old ones.** Names over old ones are what they would be without
them exactly if none of them is one of the old names behind the one it takes the place of. -/
theorem namesOver_eq_iff {named old params : List String} (hlength : old.length = params.length) :
    namesOver named old params = namesOnto named params ↔
      ∀ i j x, i < j → (namesOnto named params)[named.length + i]? = some x → old[j]? ≠ some x := by
  induction params generalizing named old with
  | nil =>
    obtain rfl : old = [] := List.length_eq_zero_iff.mp hlength
    exact ⟨fun _ _ _ _ _ _ ↦ nofun, fun _ ↦ rfl⟩
  | cons p params ih =>
    cases old with
    | nil => cases hlength
    | cons o old =>
      have hown := prefix_namesOnto (named ++ [freshName named p]) params
      have hover := prefix_namesOver (named ++ [freshName (named ++ old) p]) old params
      rw [namesOver, namesOnto_cons]
      by_cases hclash : freshName named p ∈ old
      · -- the first name comes up behind, so that it cannot be given
        obtain ⟨j, hj⟩ := List.mem_iff_getElem?.mp hclash
        refine iff_of_false (fun heq ↦ ?_) fun hall ↦ ?_
        · have hfirst := getElem?_of_prefix_concat hover
          rw [heq, getElem?_of_prefix_concat hown, Option.some.injEq] at hfirst
          exact freshName_notMem (named ++ old) p (hfirst ▸ List.mem_append_right _ hclash)
        · exact hall 0 (j + 1) _ (Nat.succ_pos _) (getElem?_of_prefix_concat hown) hj
      · have hfirst : freshName (named ++ old) p = freshName named p := by
          refine (freshName_eq_freshName_iff (List.subset_append_left _ _)).mpr fun hmem ↦ ?_
          exact (List.mem_append.mp hmem).elim (freshName_notMem named p) hclash
        rw [hfirst, ih (Nat.succ.inj hlength), List.length_append, List.length_singleton]
        constructor
        · intro hall i j x hij hx
          cases j with
          | zero => exact absurd hij (Nat.not_lt_zero i)
          | succ j =>
            cases i with
            | zero =>
              rw [Nat.add_zero, getElem?_of_prefix_concat hown, Option.some.injEq] at hx
              subst hx
              exact fun hj ↦ hclash (List.mem_of_getElem? hj)
            | succ i =>
              refine hall i j x (Nat.lt_of_succ_lt_succ hij) ?_
              rwa [Nat.add_assoc, Nat.add_comm 1]
        · intro hall i j x hij hx
          refine hall (i + 1) (j + 1) x (Nat.succ_lt_succ hij) ?_
          rwa [Nat.add_assoc, Nat.add_comm 1] at hx

/-! ## The search without a bound -/

/-- Trying the numbers from `n` on, one after the other, until one makes the name free, ends with
the name `x` after `count` of them. Nothing here bounds the numbers. -/
inductive Finds (taken : String → Prop) (base : String) : (n count : Nat) → (x : String) → Prop
  | free {n : Nat} (h : ¬taken (base ++ toString n)) : Finds taken base n 1 (base ++ toString n)
  | next {n count : Nat} {x : String} (h : taken (base ++ toString n))
      (later : Finds taken base (n + 1) count x) : Finds taken base n (count + 1) x

/-- Looking for a name made from `base` ends with `x` after `tried` numbers: none if the bare name
is free. -/
inductive Searches (taken : String → Prop) (base : String) : (tried : Nat) → (x : String) → Prop
  | bare (h : ¬taken base) : Searches taken base 0 base
  | numbered {tried : Nat} {x : String} (h : taken base) (later : Finds taken base 1 tried x) :
      Searches taken base tried x

theorem Finds.unique {taken : String → Prop} {n count count' : Nat} {x x' : String}
    (h : Finds taken base n count x) (h' : Finds taken base n count' x') :
    count' = count ∧ x' = x := by
  induction h generalizing count' with
  | free hfree =>
    cases h' with
    | free _ => exact ⟨rfl, rfl⟩
    | next htaken _ => exact absurd htaken hfree
  | next htaken _ ih =>
    cases h' with
    | free hfree => exact absurd htaken hfree
    | next _ later' => exact (ih later').imp (congrArg (· + 1)) id

theorem Searches.unique {taken : String → Prop} {tried tried' : Nat} {x x' : String}
    (h : Searches taken base tried x) (h' : Searches taken base tried' x') :
    tried' = tried ∧ x' = x := by
  cases h with
  | bare hfree =>
    cases h' with
    | bare _ => exact ⟨rfl, rfl⟩
    | numbered htaken _ => exact absurd htaken hfree
  | numbered htaken later =>
    cases h' with
    | bare hfree => exact absurd htaken hfree
    | numbered _ later' => exact later.unique later'

private theorem FirstFree.finds (h : FirstFree taken base (n + 1)) :
    ∀ k ≤ n, Finds (· ∈ taken) base (n + 1 - k) (k + 1) (candidate base (n + 1)) := by
  intro k hk
  induction k with
  | zero => exact .free h.free
  | succ k ih =>
    have hnumber : n + 1 - k = n + 1 - (k + 1) + 1 := by omega
    have hbefore : base ++ toString (n + 1 - (k + 1)) ∈ taken := by
      have hearlier := h.earlier (n + 1 - (k + 1)) (by omega)
      rwa [show n + 1 - (k + 1) = n - (k + 1) + 1 by omega] at hearlier ⊢
    exact .next hbefore (hnumber ▸ ih (by omega))

/-- As many numbers are tried as the first free candidate has. -/
private theorem FirstFree.searches (h : FirstFree taken base n) :
    Searches (· ∈ taken) base n (candidate base n) := by
  cases n with
  | zero => exact .bare h.free
  | succ n =>
    refine .numbered (h.earlier 0 (Nat.succ_pos n)) ?_
    have hfinds := h.finds n (Nat.le_refl n)
    rwa [Nat.add_sub_cancel_left] at hfinds

private theorem FirstFree.le_length (h : FirstFree taken base n) : n ≤ taken.length := by
  obtain ⟨k, hk, hfree⟩ := exists_candidate_notMem taken base
  by_contra hlt
  exact hfree (h.earlier k (by omega))

namespace Function

/-- The name is that of a temporary, or that of a parameter other than the one that is skipped. -/
def IsTaken (f : Function) (skip? : Option Nat) (name : String) : Prop :=
  (∃ i, f.params[i]? = some name ∧ skip? ≠ some i) ∨ name ∈ f.temps

/-- The names that a name must differ from: a new one from all, one that is given to a parameter
from those beside that parameter. -/
def takenNames (f : Function) : (skip? : Option Nat) → List String
  | none => f.localNames
  | some i => f.namesBeside i

variable (f : Function) (skip? : Option Nat)

theorem mem_takenNames_iff {name : String} :
    name ∈ f.takenNames skip? ↔ f.IsTaken skip? name := by
  rw [IsTaken]
  cases skip? with
  | none =>
    rw [takenNames, localNames, List.mem_append, List.mem_iff_getElem?]
    simp
  | some i =>
    rw [takenNames, namesBeside, List.mem_append, List.mem_eraseIdx_iff_getElem?]
    refine or_congr_left (exists_congr fun j ↦ ?_)
    rw [and_comm, ne_comm, ne_eq, ne_eq, Option.some.injEq]

private theorem length_takenNames_le :
    (f.takenNames skip?).length ≤ f.params.length + f.temps.length := by
  cases skip? with
  | none => exact Nat.le_of_eq List.length_append
  | some i =>
    rw [takenNames, namesBeside, List.length_append]
    exact Nat.add_le_add_right (List.length_eraseIdx_le _ _) _

/-- **A name is made free by the least number that does.** Whatever parameters and temporaries a
function has, and whichever parameter is skipped, the search for a name that is not taken comes to
an end, in one way only, after no more numbers than there are parameters and temporaries. It ends
with the bare name if that is free, and otherwise with the name numbered by the least number from
one on that makes it free. The name is then that of no temporary and of no parameter but the skipped
one. -/
theorem search_ends_with_least_number (f : Function) (skip? : Option Nat) (base : String) :
    let x := freshName (f.takenNames skip?) base
    (∃ tried ≤ f.params.length + f.temps.length, Searches (f.IsTaken skip?) base tried x ∧
      ∀ tried' x', Searches (f.IsTaken skip?) base tried' x' → tried' = tried ∧ x' = x) ∧
    (¬f.IsTaken skip? base → x = base) ∧
    (f.IsTaken skip? base → ∃ n, 1 ≤ n ∧ x = base ++ toString n ∧
      ∀ k, 1 ≤ k → k < n → f.IsTaken skip? (base ++ toString k)) ∧
    x ∉ f.temps ∧ ∀ i, f.params[i]? = some x → skip? = some i := by
  intro x
  obtain ⟨n, hn, hx⟩ := exists_firstFree (f.takenNames skip?) base
  have htaken : (· ∈ f.takenNames skip?) = f.IsTaken skip? :=
    funext fun name ↦ propext (f.mem_takenNames_iff skip?)
  have hsearches := hn.searches
  rw [htaken, ← hx] at hsearches
  have hfree : ¬f.IsTaken skip? x := by
    rw [← mem_takenNames_iff]
    exact freshName_notMem _ base
  refine ⟨⟨n, Nat.le_trans hn.le_length (f.length_takenNames_le skip?), hsearches,
    fun _ _ ↦ hsearches.unique⟩, fun hbase ↦ ?_, fun hbase ↦ ?_, fun hmem ↦ hfree (.inr hmem),
    fun i hi ↦ ?_⟩
  · exact freshName_of_notMem (mt (f.mem_takenNames_iff skip?).mp hbase)
  · cases n with
    | zero => exact absurd ((f.mem_takenNames_iff skip?).mpr hbase) hn.free
    | succ n =>
      refine ⟨n + 1, Nat.succ_pos n, hx, fun k hk hkn ↦ ?_⟩
      obtain ⟨k, rfl⟩ : ∃ j, k = j + 1 := ⟨k - 1, by omega⟩
      exact (f.mem_takenNames_iff skip?).mp (hn.earlier (k + 1) hkn)
  · by_contra hskip
    exact hfree (.inl ⟨i, hi, hskip⟩)

end Function

end FloatLang.Ssa
