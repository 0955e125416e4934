import FloatLang.Double.Constant
import FloatLang.Proofs.Constants
import FloatLang.Proofs.FreshNames
import FloatLang.Proofs.Reading

/-!
# Words between delimiters

A text is put together from words that never change and words that do, such as names and numbers.
A word that has no delimiter in it and a delimiter behind it ends where it does: two texts that
begin with such words and are equal begin with the same word. The same holds of lists, if what
stands behind the last element cannot be taken for the beginning of another one.

Names are such words, because they are alphanumeric, and so are the texts of constants. These also
read back, so that two constants with the same text have the same bits.
-/

namespace FloatLang

/-! ## Words between delimiters -/

/-- The characters that words of a text are told apart by. -/
def delimiters : List Char := [' ', ',', '(', ')', '\n']

/-- No delimiter is in the text. -/
def Solid (cs : List Char) : Prop := ∀ c ∈ cs, c ∉ delimiters

instance (cs : List Char) : Decidable (Solid cs) :=
  decidable_of_iff (cs.all (· ∉ delimiters) = true) (by simp [Solid])

/-- What follows a word: a delimiter or nothing. -/
def Delimited (cs : List Char) : Prop := ∀ c ∈ cs.head?, c ∈ delimiters

section Words

variable {cs ds rs ss : List Char}

theorem solid_cons {c : Char} (hc : c ∉ delimiters) (h : Solid cs) : Solid (c :: cs) :=
  List.forall_mem_cons.mpr ⟨hc, h⟩

theorem solid_append (h : Solid cs) (h' : Solid ds) : Solid (cs ++ ds) :=
  List.forall_mem_append.mpr ⟨h, h'⟩

theorem solid_of_isDigit (h : ∀ c ∈ cs, c.isDigit = true) : Solid cs := by
  intro c hc hmem
  have hnone : delimiters.all (fun d ↦ !d.isDigit) = true := by decide
  have hdigit := List.all_eq_true.mp hnone c hmem
  rw [h c hc] at hdigit
  cases hdigit

theorem Alphanumeric.solid {x : String} (hx : Alphanumeric x) : Solid x.toList := by
  intro c hc hmem
  have hnone : delimiters.all (fun d ↦ !Text.isAlphanumeric d) = true := by decide
  have hword := List.all_eq_true.mp hnone c hmem
  rw [hx c hc] at hword
  cases hword

theorem delimited_cons {c : Char} (hc : c ∈ delimiters) (rs : List Char) : Delimited (c :: rs) := by
  intro d hd
  cases hd
  exact hc

theorem delimited_append {c : Char} (hcs : cs.head? = some c) (hc : c ∈ delimiters)
    (rs : List Char) : Delimited (cs ++ rs) := by
  intro d hd
  rw [List.head?_append, hcs] at hd
  cases hd
  exact hc

theorem Solid.newline_notMem (h : Solid cs) : '\n' ∉ cs :=
  fun hmem ↦ h _ hmem (by decide)

/-- Texts that go up to a stop are equal if the texts that begin with them are. -/
theorem append_inj_of_stops {stops : List Char} (hcs : ∀ c ∈ cs, c ∉ stops)
    (hds : ∀ d ∈ ds, d ∉ stops) (hrs : ∀ c ∈ rs.head?, c ∈ stops) (hss : ∀ c ∈ ss.head?, c ∈ stops)
    (h : cs ++ rs = ds ++ ss) : cs = ds ∧ rs = ss := by
  induction cs generalizing ds with
  | nil =>
    cases ds with
    | nil => exact ⟨rfl, h⟩
    | cons d ds =>
      rw [List.nil_append] at h
      exact absurd (hrs d (by rw [h]; rfl)) (hds d List.mem_cons_self)
  | cons c cs ih =>
    cases ds with
    | nil =>
      rw [List.nil_append] at h
      exact absurd (hss c (by rw [← h]; rfl)) (hcs c List.mem_cons_self)
    | cons d ds =>
      obtain ⟨rfl, htail⟩ := List.cons.inj h
      obtain ⟨rfl, hrest⟩ :=
        ih (List.forall_mem_cons.mp hcs).2 (List.forall_mem_cons.mp hds).2 htail
      exact ⟨rfl, hrest⟩

theorem Solid.append_inj (hcs : Solid cs) (hds : Solid ds) (hrs : Delimited rs)
    (hss : Delimited ss) (h : cs ++ rs = ds ++ ss) : cs = ds ∧ rs = ss :=
  append_inj_of_stops hcs hds hrs hss h

/-- A list is determined by the codes of its elements if each begins with `c` and behind the last
one stands another character. -/
theorem flatMap_append_inj {α : Type} {code : α → List Char} {P : α → Prop} {c d : Char}
    (hcd : c ≠ d) (hcode : ∀ a, P a → (code a).head? = some c)
    (hinj : ∀ a b rs ss, P a → P b → (∀ e ∈ rs.head?, e = c ∨ e = d) →
      (∀ e ∈ ss.head?, e = c ∨ e = d) → code a ++ rs = code b ++ ss → a = b ∧ rs = ss)
    {as bs : List α} (has : ∀ a ∈ as, P a) (hbs : ∀ b ∈ bs, P b)
    (h : as.flatMap code ++ d :: rs = bs.flatMap code ++ d :: ss) : as = bs ∧ rs = ss := by
  have hhead : ∀ {as : List α} {rs : List Char}, (∀ a ∈ as, P a) →
      ∀ e ∈ (as.flatMap code ++ d :: rs).head?, e = c ∨ e = d := by
    intro as rs has e he
    cases as with
    | nil =>
      cases he
      exact .inr rfl
    | cons a as =>
      rw [List.flatMap_cons, List.append_assoc, List.head?_append,
        hcode a (has a List.mem_cons_self)] at he
      cases he
      exact .inl rfl
  have hstart : ∀ {a : α} {xs ys : List Char}, P a → code a ++ xs ≠ d :: ys := by
    intro a xs ys ha heq
    have hfirst := congrArg List.head? heq
    rw [List.head?_append, hcode a ha] at hfirst
    exact hcd (Option.some.inj hfirst)
  induction as generalizing bs with
  | nil =>
    cases bs with
    | nil => exact ⟨rfl, (List.cons.inj h).2⟩
    | cons b bs =>
      rw [List.flatMap_cons, List.append_assoc] at h
      exact absurd h.symm (hstart (hbs b List.mem_cons_self))
  | cons a as ih =>
    obtain ⟨ha, has'⟩ := List.forall_mem_cons.mp has
    cases bs with
    | nil =>
      rw [List.flatMap_cons, List.append_assoc] at h
      exact absurd h (hstart ha)
    | cons b bs =>
      obtain ⟨hb, hbs'⟩ := List.forall_mem_cons.mp hbs
      rw [List.flatMap_cons, List.flatMap_cons, List.append_assoc, List.append_assoc] at h
      obtain ⟨rfl, hrest⟩ := hinj a b _ _ ha hb (hhead has') (hhead hbs') h
      obtain ⟨rfl, hend⟩ := ih has' hbs' hrest
      exact ⟨rfl, hend⟩

end Words

/-! ## Lists of operands -/

/-- Operands between parentheses, of which each has its type in front. -/
def typedList (xs : List String) : String := String.intercalate ", " (xs.map ("double " ++ ·))

private theorem intercalate_cons_eq {α : Type} (sep x : List α) (xs : List (List α)) :
    sep.intercalate (x :: xs) = x ++ xs.flatMap (sep ++ ·) := by
  induction xs generalizing x with
  | nil => simp
  | cons y xs ih => rw [List.intercalate_cons_cons, ih, List.flatMap_cons]; simp

private theorem toList_typedList_cons (x : String) (xs : List String) :
    (typedList (x :: xs)).toList = "double ".toList ++ (x.toList ++
      xs.flatMap fun y ↦ ", double ".toList ++ y.toList) := by
  rw [typedList, String.toList_intercalate, List.map_cons, List.map_cons, intercalate_cons_eq,
    String.toList_append, List.append_assoc, List.map_map, List.flatMap_map]
  have hsep : ", double ".toList = ", ".toList ++ "double ".toList := by decide
  simp only [hsep, List.append_assoc, Function.comp_apply, String.toList_append]

theorem typedList_inj {xs ys : List String} {rs ss : List Char}
    (hxs : ∀ x ∈ xs, Solid x.toList) (hys : ∀ y ∈ ys, Solid y.toList)
    (h : (typedList xs).toList ++ ')' :: rs = (typedList ys).toList ++ ')' :: ss) :
    xs = ys ∧ rs = ss := by
  have hdelimited : ∀ {xs : List String} {rs : List Char},
      Delimited ((xs.flatMap fun y ↦ ", double ".toList ++ y.toList) ++ ')' :: rs) := by
    intro xs rs
    cases xs with
    | nil => exact delimited_cons (by decide) rs
    | cons x xs => exact delimited_cons (c := ',') (by decide) _
  have hitem : ∀ (x y : String) (rs ss : List Char), Solid x.toList → Solid y.toList →
      (∀ e ∈ rs.head?, e = ',' ∨ e = ')') → (∀ e ∈ ss.head?, e = ',' ∨ e = ')') →
      ", double ".toList ++ x.toList ++ rs = ", double ".toList ++ y.toList ++ ss →
      x = y ∧ rs = ss := by
    intro x y rs ss hx hy hrs hss h
    rw [List.append_assoc, List.append_assoc, List.append_right_inj] at h
    have hends : ∀ e, e = ',' ∨ e = ')' → e ∈ delimiters := by
      rintro e (rfl | rfl) <;> decide
    obtain ⟨hxy, hend⟩ :=
      hx.append_inj hy (fun e he ↦ hends e (hrs e he)) (fun e he ↦ hends e (hss e he)) h
    exact ⟨String.toList_inj.mp hxy, hend⟩
  have hclosed : ∀ {y : String} {ys : List String} {rs ss : List Char},
      (typedList (y :: ys)).toList ++ rs ≠ ')' :: ss := by
    intro y ys rs ss h
    rw [toList_typedList_cons] at h
    exact absurd (List.cons.inj h).1 (by decide)
  cases xs with
  | nil =>
    cases ys with
    | nil => exact ⟨rfl, (List.cons.inj h).2⟩
    | cons y ys => exact absurd h.symm hclosed
  | cons x xs =>
    cases ys with
    | nil => exact absurd h hclosed
    | cons y ys =>
      obtain ⟨hx, hxs⟩ := List.forall_mem_cons.mp hxs
      obtain ⟨hy, hys⟩ := List.forall_mem_cons.mp hys
      rw [toList_typedList_cons, toList_typedList_cons, List.append_assoc, List.append_assoc,
        List.append_assoc, List.append_assoc, List.append_right_inj] at h
      obtain ⟨hxy, hrest⟩ := hx.append_inj hy hdelimited hdelimited h
      obtain ⟨rfl, hend⟩ := flatMap_append_inj (by decide) (fun _ _ ↦ rfl) hitem hxs hys hrest
      exact ⟨by rw [String.toList_inj.mp hxy], hend⟩

theorem newline_notMem_typedList {xs : List String} (h : ∀ x ∈ xs, '\n' ∉ x.toList) :
    '\n' ∉ (typedList xs).toList := by
  cases xs with
  | nil => decide
  | cons x xs =>
    obtain ⟨hx, hxs⟩ := List.forall_mem_cons.mp h
    rw [toList_typedList_cons]
    refine List.not_mem_append (by decide) (List.not_mem_append hx fun hmem ↦ ?_)
    obtain ⟨y, hy, hmem⟩ := List.mem_flatMap.mp hmem
    exact List.not_mem_append (by decide) (hxs y hy) hmem

theorem pair_inj {x y x' y' : String} (hx : Solid x.toList) (hx' : Solid x'.toList)
    (h : x ++ ", " ++ y = x' ++ ", " ++ y') : x = x' ∧ y = y' := by
  have hchars := congrArg String.toList h
  simp only [String.toList_append, List.append_assoc] at hchars
  obtain ⟨hleft, hright⟩ := hx.append_inj hx' (delimited_append (c := ',') rfl (by decide) _)
    (delimited_append (c := ',') rfl (by decide) _) hchars
  exact ⟨String.toList_inj.mp hleft, String.toList_inj.mp ((List.append_right_inj _).mp hright)⟩

theorem call_inj {x x' : String} {xs xs' : List String} (hx : Solid x.toList)
    (hx' : Solid x'.toList) (hxs : ∀ y ∈ xs, Solid y.toList) (hxs' : ∀ y ∈ xs', Solid y.toList)
    (h : x ++ "(" ++ typedList xs ++ ")" = x' ++ "(" ++ typedList xs' ++ ")") :
    x = x' ∧ xs = xs' := by
  have hchars := congrArg String.toList h
  simp only [String.toList_append, List.append_assoc] at hchars
  obtain ⟨hleft, hright⟩ := hx.append_inj hx' (delimited_append (c := '(') rfl (by decide) _)
    (delimited_append (c := '(') rfl (by decide) _) hchars
  have hlist : (typedList xs).toList ++ ')' :: [] = (typedList xs').toList ++ ')' :: [] :=
    (List.append_right_inj _).mp hright
  exact ⟨String.toList_inj.mp hleft, (typedList_inj hxs hxs' hlist).1⟩

/-! ## Constants -/

namespace Double

private theorem solid_hexDigits (width n : Nat) : Solid (hexDigits width n) := by
  induction width generalizing n with
  | zero => exact nofun
  | succ width ih =>
    have hall : ∀ m < 16, hexDigit m ∉ delimiters := by decide
    exact solid_append (ih _) (solid_cons (hall _ (Nat.mod_lt _ (by decide))) nofun)

theorem solid_toString (n : Nat) : Solid (toString n).toList :=
  solid_of_isDigit fun _ ↦ Ssa.isDigit_of_mem_toString

private theorem solid_toString_int (e : Int) : Solid (toString e).toList := by
  cases e with
  | ofNat n => exact solid_toString n
  | negSucc n =>
    have htext : (toString (Int.negSucc n)).toList = '-' :: (toString (n + 1)).toList := by
      change ("-" ++ Nat.repr (n + 1)).toList = _
      rw [String.toList_append]
      rfl
    rw [htext]
    exact solid_cons (by decide) (solid_toString _)

theorem solid_scientific (d : Double) : Solid d.scientific := by
  have hdigits : Solid ((toString (10 ^ (7 : Nat) + (d.rounded 6).coefficient)).toList.drop 1) :=
    fun c hc ↦ solid_toString _ c (List.mem_of_mem_drop hc)
  have hsign : Solid (if d.isNegative then ['-'] else []) := by
    split
    · exact solid_cons (by decide) nofun
    · exact nofun
  rw [scientific]
  refine solid_append (solid_append (solid_append hsign ?_) ?_) ?_
  · exact fun c hc ↦ hdigits c (List.mem_of_mem_take hc)
  · exact solid_cons (by decide) fun c hc ↦ hdigits c (List.mem_of_mem_drop hc)
  · exact solid_cons (by decide) (solid_toString_int _)

private theorem solid_of_respelled? {cs text : List Char} (h : respelled? cs = some text)
    (hcs : Solid cs) : Solid text := by
  intro c hc
  obtain hmem | rfl | rfl := mem_of_respelled? h hc
  · exact hcs c hmem
  · decide
  · decide

theorem solid_constantText (d : Double) : Solid d.constantText := by
  rw [constantText]
  cases htext : d.exponential? with
  | none => exact solid_cons (by decide) (solid_cons (by decide) (solid_hexDigits _ _))
  | some text =>
    exact solid_of_respelled? (exponential?_eq_some_iff.mp htext).2.1 (solid_scientific d)

end Double

end FloatLang
