import FloatLang.Proofs.Boundary
import FloatLang.Proofs.Joining
import FloatLang.Proofs.Script

/-!
# Statements and what separates them

A text that is cut at a separator is handled like its two parts one after the other. The script of
the whole text is the script of the first part, followed by that of the second part unless the first
one has a fault; and acting the one script is acting the two. Only the place at which a fault is
told depends on where the text has been cut, so the actions are compared up to that place.
-/

namespace FloatLang

/-! ## Scripts that follow each other -/

namespace Script

/-- The items of one script and, unless it has a fault, those of the next. -/
def followedBy (s s' : Script) : Script :=
  match s.fault with
  | some _ => s
  | none => ⟨s.items ++ s'.items, s'.fault⟩

/-- The same items, with a fault behind both of them or behind none. -/
structure Same (s s' : Script) : Prop where
  items : s.items = s'.items
  fault : s.fault.isSome = s'.fault.isSome

variable {s₁ s₁' s₂ s₂' : Script}

theorem Same.refl (s : Script) : s.Same s := ⟨rfl, rfl⟩

theorem Same.trans {s s' s'' : Script} (h : s.Same s') (h' : s'.Same s'') : s.Same s'' :=
  ⟨h.items.trans h'.items, h.fault.trans h'.fault⟩

theorem Same.cons (h : s₁.Same s₁') (i : Item) : (s₁.cons i).Same (s₁'.cons i) :=
  ⟨congrArg (i :: ·) h.items, h.fault⟩

theorem Same.followedBy (h₁ : s₁.Same s₁') (h₂ : s₂.Same s₂') :
    (s₁.followedBy s₂).Same (s₁'.followedBy s₂') := by
  obtain ⟨items, fault⟩ := s₁
  obtain ⟨items', fault'⟩ := s₁'
  obtain rfl : items = items' := h₁.items
  have hfault : fault.isSome = fault'.isSome := h₁.fault
  cases fault <;> cases fault' <;> cases hfault
  · exact ⟨congrArg (items ++ ·) h₂.items, h₂.fault⟩
  · exact ⟨rfl, rfl⟩

theorem cons_followedBy (i : Item) (s s' : Script) :
    (s.cons i).followedBy s' = (s.followedBy s').cons i := by
  obtain ⟨items, fault⟩ := s
  cases fault <;> rfl

theorem nil_followedBy (s : Script) : followedBy ⟨[], none⟩ s = s := rfl

/-! ## Tokens up to a boundary -/

section Boundary

variable {fault fault' : Option LexError} {tail : List Token}

/-- At the end of the tokens the second script is what stands behind a boundary. -/
private theorem ofTokens_tail (hb : Boundary fault tail fault') :
    ofTokens fault' tail = resumed fault' tail := by
  cases hb with
  | moved h => exact ofTokens_nil
  | separated hc later fault' => exact ofTokens_separator hc

private theorem same_ofStream_of (hb : Boundary fault tail fault') {ts : List Token}
    (h : (ofTokens fault' (ts ++ tail)).Same
      ((ofTokens fault ts).followedBy (resumed fault' tail))) :
    (ofStream ⟨ts ++ tail, fault'⟩).Same
      ((ofStream ⟨ts, fault⟩).followedBy (resumed fault' tail)) := by
  rcases ts with _ | ⟨t, rest⟩
  · cases hb with
    | moved hfault =>
      cases fault <;> cases fault' <;> cases hfault
      · exact h
      · exact ⟨rfl, rfl⟩
    | separated hc later fault' => exact h
  · exact h

/-- **Scripts at a boundary.** The script of the tokens with what stands behind the boundary is the
script of the tokens followed by the one behind the boundary. -/
theorem same_ofTokens (hb : Boundary fault tail fault') (ts : List Token) :
    (ofTokens fault' (ts ++ tail)).Same
      ((ofTokens fault ts).followedBy (resumed fault' tail)) := by
  induction hn : ts.length using Nat.strongRecOn generalizing ts with
  | ind n ih =>
    subst hn
    rcases ts with _ | ⟨t, rest⟩
    · rw [ofTokens_nil, nil_followedBy, List.nil_append, ofTokens_tail hb]
      exact .refl _
    rw [List.cons_append]
    by_cases hsep : Session.isSeparator t = true
    · rw [ofTokens_separator hsep, ofTokens_separator hsep]
      exact same_ofStream_of hb (ih _ (by simp) rest rfl)
    have hmatches := matches_readStatement hb (t := t) (Eq.refl (rest ++ tail))
    generalize hfirst : readStatement fault (t :: rest) = first at hmatches
    generalize hsecond : readStatement fault' (t :: (rest ++ tail)) = second at hmatches
    cases hmatches with
    | read statement h fewer fewer' =>
      subst h
      rw [ofTokens_read hsep hfirst, ofTokens_read hsep hsecond, cons_followedBy]
      exact (ih _ fewer _ rfl).cons _
    | lex e e' h noMore noMore' =>
      rw [ofTokens_lex hsep hfirst, ofTokens_lex hsep hsecond]
      exact ⟨rfl, rfl⟩
    | expected what h noMore noMore' =>
      subst h
      rw [ofTokens_misread hsep hfirst, ofTokens_misread hsep hsecond, cons_followedBy]
      refine Same.cons ?_ _
      -- the token that is skipped is the next one of the first part, or the separator
      rename_i after
      rcases after with _ | ⟨t', after⟩
      · exact .refl _
      · exact same_ofStream_of hb (ih _ (by simp at noMore ⊢; omega) after rfl)

theorem same_ofStream (hb : Boundary fault tail fault') (ts : List Token) :
    (ofStream ⟨ts ++ tail, fault'⟩).Same
      ((ofStream ⟨ts, fault⟩).followedBy (resumed fault' tail)) :=
  same_ofStream_of hb (same_ofTokens hb ts)

end Boundary

/-! ## Texts cut at a separator -/

theorem followedBy_of_fault {s s' : Script} {e : LexError} (h : s.fault = some e) :
    s.followedBy s' = s := by
  rw [followedBy, h]

private theorem same_followedBy_nil (s : Script) : (s.followedBy ⟨[], none⟩).Same s := by
  obtain ⟨items, fault⟩ := s
  cases fault
  · exact ⟨List.append_nil items, rfl⟩
  · exact .refl _

private theorem same_ofStream_moved {s s' : TokenStream} (htokens : s.tokens = s'.tokens)
    (hfault : s.fault.isSome = s'.fault.isSome) : (ofStream s).Same (ofStream s') := by
  obtain ⟨ts, fault⟩ := s
  obtain ⟨ts', fault'⟩ := s'
  obtain rfl : ts = ts' := htokens
  have hsame := same_ofStream (.moved hfault.symm) ts
  rw [List.append_nil] at hsame
  exact hsame.trans (same_followedBy_nil _)

private theorem same_ofText_append (a b : String) {c : Char} (hc : Text.separates c = true)
    (hcomment : c = '\n' ∨ '#' ∉ lastLine a.toList) :
    (ofText (a.push c ++ b)).Same ((ofText a).followedBy (ofText b)) := by
  have hj := joint_of_separates hc (hcomment.imp_right commentsEnd_of_lastLine)
  have htext : (a.push c ++ b).toList = a.toList ++ c :: b.toList := by
    rw [String.toList_append, String.toList_push, List.append_assoc, List.singleton_append]
  have hstream : (Cursor.ofString (a.push c ++ b)).stream = (Cursor.ofString a).stream.followedBy
      ((Cursor.mk b.toList ((Position.start.after a.toList).next c)).stream.cons (.symbol c)) := by
    rw [Cursor.ofString, htext, Cursor.stream_append hj, Cursor.stream_separator hc,
      Cursor.ofString]
  rw [ofText, hstream]
  cases hfault : (Cursor.ofString a).stream.fault with
  | some e =>
    rw [TokenStream.followedBy_of_fault hfault, followedBy_of_fault ((fault_ofText a).trans hfault)]
    exact .refl _
  | none =>
    rw [TokenStream.followedBy_of_end hfault]
    have hmoved := Cursor.stream_moved b.toList ((Position.start.after a.toList).next c) .start
    refine (same_ofStream (.separated (Text.isSeparator_of_separates hc) _ _) _).trans ?_
    refine .followedBy ?_ (same_ofStream_moved hmoved.1 hmoved.2)
    exact same_ofStream_moved rfl (congrArg Option.isSome hfault.symm)

end Script

/-! ## Sessions -/

/-- The failure without the place where a point without digits stands. -/
def Error.unplaced : Error → Error
  | .reading (.lex _) => .lex ⟨.start⟩
  | e => e

namespace Session

/-- The end of an action, without the place where a point without digits stands. -/
def unplaced : EStateM.Result Error Session Unit → EStateM.Result Error Session Unit
  | .ok u s => .ok u s
  | .error e s => .error e.unplaced s

/-- The actions do the same in every session, except that they may tell a point without digits at
different places. -/
def Equivalent (x y : Action Unit) : Prop := ∀ s, unplaced (x.run s) = unplaced (y.run s)

theorem Equivalent.refl (x : Action Unit) : Equivalent x x := fun _ ↦ rfl

theorem Equivalent.symm {x y : Action Unit} (h : Equivalent x y) : Equivalent y x :=
  fun s ↦ (h s).symm

theorem Equivalent.trans {x y z : Action Unit} (h : Equivalent x y) (h' : Equivalent y z) :
    Equivalent x z :=
  fun s ↦ (h s).trans (h' s)

theorem Equivalent.bind {x x' : Action Unit} {f f' : Unit → Action Unit} (hx : Equivalent x x')
    (hf : Equivalent (f ()) (f' ())) : Equivalent (x >>= f) (x' >>= f') := by
  intro s
  have hs := hx s
  rw [EStateM.run_bind, EStateM.run_bind]
  cases hrun : x.run s <;> cases hrun' : x'.run s <;> rw [hrun, hrun'] at hs
  · cases hs
    exact hf _
  · cases hs
  · cases hs
  · exact hs

private theorem act_followedBy (s s' : Script) : act (s.followedBy s') = (do act s; act s') := by
  obtain ⟨items, fault⟩ := s
  cases fault with
  | some e =>
    show act ⟨items, some e⟩ = (do (do items.forM actItem; throw (.lex e)); act s')
    rw [bind_assoc]
    rfl
  | none =>
    show (do forM (items ++ s'.items) actItem; endAt s'.fault) =
      (do (do forM items actItem; pure ()); act s')
    rw [List.forM_append, bind_assoc, bind_assoc]
    rfl

theorem equivalent_act {s s' : Script} (h : s.Same s') : Equivalent (act s) (act s') := by
  obtain ⟨items, fault⟩ := s
  obtain ⟨items', fault'⟩ := s'
  obtain rfl : items = items' := h.items
  have hfault : fault.isSome = fault'.isSome := h.fault
  refine .bind (.refl _) ?_
  cases fault <;> cases fault' <;> cases hfault
  · exact .refl _
  · exact fun s ↦ rfl

/-- **Separators.** A text that is cut at a separator is handled like its two parts one after the
other. -/
theorem equivalent_handle_append (a b : String) {c : Char} (hc : Text.separates c = true)
    (hcomment : c = '\n' ∨ '#' ∉ lastLine a.toList) :
    Equivalent (handle (a.push c ++ b)) (do handle a; handle b) := by
  rw [handle_eq, handle_eq, handle_eq, ← act_followedBy]
  exact equivalent_act (Script.same_ofText_append a b hc hcomment)

end Session

end FloatLang
