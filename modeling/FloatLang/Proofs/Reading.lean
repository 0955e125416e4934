import FloatLang.Expr.Reading
import Mathlib.Data.List.TakeWhile
import Mathlib.Data.Nat.Init

/-!
# What readers leave and what they answer

A reader steps over tokens from the front, so what it leaves are the last of the tokens that it was
given, also when it fails. It never steps over the last token in front of a fault, so the only way
past that token is the failure of the fault itself. And it makes up no names: a name that it answers
was the name of a token. The tokens of a text are words, and a word is not empty; hence a program
can neither define nor call the function without a name.

These facts are about every reader, and they are proved in one pass: `Sound` bundles them, and there
is one lemma for each way in which readers are put together.
-/

namespace FloatLang

/-! ## Expressions that call functions with a name -/

mutual

/-- Whether every call in an expression is of a function with a name. -/
def Expr.Named : Expr → Prop
  | .number _ => True
  | .name _ => True
  | .binary _ lhs rhs => lhs.Named ∧ rhs.Named
  | .call callee args => callee ≠ "" ∧ Expr.AllNamed args

def Expr.AllNamed : List Expr → Prop
  | [] => True
  | e :: es => e.Named ∧ Expr.AllNamed es

end

def Prototype.Named (p : Prototype) : Prop := p.name ≠ ""

/-- The names that a prototype gives, of the function and of its parameters. -/
def Prototype.names (p : Prototype) : List String := p.name :: p.params

/-- Whether a definition is of a function with a name, and calls such functions only. -/
structure Definition.Named (d : Definition) : Prop where
  proto : d.proto.Named
  body : d.body.Named

/-- Whether a statement is about functions with a name only. -/
def Statement.Named : Statement → Prop
  | .definition d => d.Named
  | .declaration p => p.Named
  | .expression e => e.Named

/-- The prototype of the function that a statement is lowered to. -/
def Statement.proto : Statement → Prototype
  | .definition d => d.proto
  | .declaration p => p
  | .expression _ => .anonymous

/-- Whether each name is the name of a token, if it is not empty. -/
def NamesOf (ts : List Token) (names : List String) : Prop :=
  ∀ x ∈ names, x = "" ∨ .identifier x ∈ ts

theorem NamesOf.mono {ts ts' : List Token} {names : List String} (h : NamesOf ts names)
    (hsub : ts ⊆ ts') : NamesOf ts' names :=
  fun x hx ↦ (h x hx).imp_right (@hsub _)

theorem namesOf_cons {ts : List Token} {x : String} {names : List String}
    (hx : .identifier x ∈ ts) (h : NamesOf ts names) : NamesOf ts (x :: names) :=
  List.forall_mem_cons.mpr ⟨.inr hx, h⟩

/-! ## Sound readers -/

namespace Reading

/-- What can be left of the tokens `ts` in front of `fault`, by stepping over one after the
other. -/
inductive Reaches (fault : Option LexError) (ts : List Token) : List Token → Prop
  | refl : Reaches fault ts ts
  | step {t : Token} {rest : List Token} :
    Reaches fault ts (t :: rest) → TokenStream.blocking? fault rest = none → Reaches fault ts rest

variable {α β : Type} {m n : Nat} {ts rest : List Token} {p : α → Prop} {q : β → Prop}
  {fault : Option LexError}

theorem Reaches.trans {later : List Token} (h : Reaches fault ts rest)
    (h' : Reaches fault rest later) : Reaches fault ts later := by
  induction h' with
  | refl => exact h
  | step _ hblocking ih => exact ih.step hblocking

theorem Reaches.suffix (h : Reaches fault ts rest) : rest <:+ ts := by
  induction h with
  | refl => exact List.suffix_refl _
  | step _ _ ih => exact (List.suffix_cons _ _).trans ih

theorem Reaches.notMem {t : Token} (h : Reaches fault ts rest) (ht : t ∉ ts) : t ∉ rest :=
  fun hmem ↦ ht (h.suffix.subset hmem)

/-- The last token in front of a fault is not stepped over. -/
theorem Reaches.ne_nil {e : LexError} (h : Reaches (some e) ts rest) (hts : ts ≠ []) :
    rest ≠ [] := by
  induction h with
  | refl => exact hts
  | step _ hblocking _ =>
    rintro rfl
    cases hblocking

/-- A value that is read satisfies `p`, a fault that is met is the one behind the tokens, of which
the last is then left, and the tokens left are reached from `ts`. -/
structure Sound (fault : Option LexError) (p : α → Prop) (ts : List Token) (x : Reading α n) :
    Prop where
  value : ∀ a, x.outcome.1 = .ok a → p a
  met : ∀ e, x.outcome.1 = .error (.lex e) → fault = some e
  blocked : ∀ e, x.outcome.1 = .error (.lex e) → ∃ t, x.outcome.2 = [t]
  left : Reaches fault ts x.outcome.2

private theorem sound_read {a : α} (ha : p a) (hrest : Reaches fault ts rest)
    (fewer : rest.length < n) : (read a rest fewer).Sound fault p ts where
  value := by
    intro b hb
    obtain rfl := Except.ok.inj hb
    exact ha
  met := nofun
  blocked := nofun
  left := hrest

private theorem sound_expected {what : Expected} (hrest : Reaches fault ts rest)
    (noMore : rest.length ≤ n) :
    (failed (.expected what) rest noMore : Reading α n).Sound fault p ts where
  value := nofun
  met := by
    intro e he
    cases he
  blocked := by
    intro e he
    cases he
  left := hrest

theorem Sound.widen {x : Reading α m} (hx : x.Sound fault p ts) (h : m ≤ n) :
    (x.widen h).Sound fault p ts := by
  cases x with
  | read a rest fewer => exact ⟨hx.value, hx.met, hx.blocked, hx.left⟩
  | failed e rest noMore => exact ⟨hx.value, hx.met, hx.blocked, hx.left⟩

theorem Sound.bind {x : Reading α n}
    {next : (a : α) → (rest : List Token) → rest.length < n → Reading β n}
    (hx : x.Sound fault p ts)
    (hnext : ∀ a rest h, p a → Reaches fault ts rest → (next a rest h).Sound fault q ts) :
    (x.bind next).Sound fault q ts := by
  cases x with
  | read a rest fewer => exact hnext a rest fewer (hx.value a rfl) hx.left
  | failed e rest noMore =>
    have hsame (e' : ReadError) (he' : (.error e : Except ReadError β) = .error e') :
        (failed e rest noMore : Reading α n).outcome.1 = .error e' := by
      rw [outcome, Except.error.inj he']
    exact ⟨nofun, fun e' he' ↦ hx.met e' (hsame _ he'), fun e' he' ↦ hx.blocked e' (hsame _ he'),
      hx.left⟩

theorem Sound.stepOver {t : Token} {next : Reading α (rest.length + 1)}
    (hrest : Reaches fault ts (t :: rest))
    (hnext : Reaches fault ts rest → next.Sound fault p ts) :
    (Reading.stepOver fault t rest next).Sound fault p ts := by
  rw [Reading.stepOver]
  split
  · rename_i e hblocking
    obtain ⟨rfl, hfault⟩ := TokenStream.blocking?_eq_some_iff.mp hblocking
    refine ⟨nofun, fun e' he' ↦ ?_, fun _ _ ↦ ⟨t, rfl⟩, hrest⟩
    cases he'
    exact hfault
  · rename_i hblocking
    exact hnext (hrest.step hblocking)

private theorem sound_close {missing : Expected} {a : α} (ha : p a)
    (hrest : Reaches fault ts rest) : (close fault missing a rest).Sound fault p ts := by
  rw [close.eq_def]
  split
  · exact .stepOver hrest fun hlater ↦ sound_read ha hlater _
  · exact sound_expected hrest _

theorem Sound.mono {ts' : List Token} {x : Reading α n} (hx : x.Sound fault p ts)
    (hts : Reaches fault ts' ts) : x.Sound fault p ts' :=
  ⟨hx.value, hx.met, hx.blocked, hts.trans hx.left⟩

theorem Sound.imp {q : α → Prop} {x : Reading α n} (hx : x.Sound fault p ts)
    (h : ∀ a, p a → q a) : x.Sound fault q ts :=
  ⟨fun a ha ↦ h a (hx.value a ha), hx.met, hx.blocked, hx.left⟩

private theorem sound_afterArgument {arg : Expr}
    {more : (later : List Token) → later.length < rest.length → Reading (List Expr) later.length}
    (harg : arg.Named) (hrest : Reaches fault ts rest)
    (hmore : ∀ later h, Reaches fault ts later →
      (more later h).Sound fault Expr.AllNamed later) :
    (afterArgument fault arg rest more).Sound fault Expr.AllNamed ts := by
  rw [afterArgument.eq_def]
  split
  · refine .stepOver hrest fun hlater ↦ .widen (.mono (.bind (hmore _ _ hlater)
      fun args after h hargs hafter ↦ ?_) hlater) _
    exact sound_read ⟨harg, hargs⟩ hafter _
  · exact sound_close ⟨harg, trivial⟩ hrest

end Reading

open Reading

structure SoundReaders (fault : Option LexError) (ts : List Token) : Prop where
  primary : (readPrimary fault ts).Sound fault Expr.Named ts
  expr : (readExpr fault ts).Sound fault Expr.Named ts
  operators : ∀ least lhs, lhs.Named →
    (readOperators fault least lhs ts).Sound fault Expr.Named ts
  arguments : (readArguments fault ts).Sound fault Expr.AllNamed ts

section Expressions

variable {fault : Option LexError} {ts : List Token}
  (ih : ∀ rest, rest.length < ts.length → .identifier "" ∉ rest → SoundReaders fault rest)
  (hts : .identifier "" ∉ ts)
include ih hts

private theorem sound_primary : (readPrimary fault ts).Sound fault Expr.Named ts := by
  rw [readPrimary.eq_def]
  split
  · exact .stepOver .refl fun hrest ↦ sound_read trivial hrest _
  · rename_i rest
    refine .stepOver .refl fun hrest ↦ .widen (.mono (.bind
      (ih rest (by simp) (hrest.notMem hts)).expr fun e after h he hafter ↦ ?_) hrest) _
    exact .widen (sound_close he hafter) _
  · rename_i f rest
    have hf : f ≠ "" := fun e ↦ hts (by rw [e]; exact List.mem_cons_self)
    refine .stepOver .refl fun hrest ↦ ?_
    split
    · rename_i rest
      refine .widen (.stepOver hrest fun hcall ↦ ?_) _
      split
      · exact .widen (.stepOver hcall fun hlater ↦ sound_read ⟨hf, trivial⟩ hlater _) _
      · have hlen : rest.length < (Token.identifier f :: .symbol '(' :: rest).length :=
          Nat.lt_trans (Nat.lt_succ_self _) (Nat.lt_succ_self _)
        have hargs := (ih rest hlen (hcall.notMem hts)).arguments
        refine .widen (.mono (.bind hargs fun args after h hargs hafter ↦ ?_) hcall) _
        exact sound_read ⟨hf, hargs⟩ hafter _
    · exact sound_read trivial hrest _
  · exact sound_expected .refl _

private theorem sound_expr : (readExpr fault ts).Sound fault Expr.Named ts := by
  rw [readExpr.eq_def]
  refine .bind (sound_primary ih hts) fun lhs after h hlhs hafter ↦ ?_
  have hreaders := ih after h (hafter.notMem hts)
  exact .widen (.mono (hreaders.operators 0 lhs hlhs) hafter) _

private theorem sound_operators (least : Nat) {lhs : Expr} (hlhs : lhs.Named) :
    (readOperators fault least lhs ts).Sound fault Expr.Named ts := by
  rw [readOperators.eq_def]
  split
  · rename_i op rest
    split
    · split
      · refine .widen (.stepOver .refl fun hrest ↦ .widen (.mono (.bind
          (ih rest (by simp) (hrest.notMem hts)).primary fun rhs after h hrhs hafter ↦ ?_)
          hrest) _) _
        -- first the operators that bind tighter, and then the ones behind them
        have hreaders := ih after (by simp; omega) ((hrest.trans hafter).notMem hts)
        refine .bind (.widen (.mono (hreaders.operators _ rhs hrhs) hafter) _)
          fun rhs later h' hrhs hlater ↦ ?_
        have hreaders := ih later (by simp; omega) ((hrest.trans hlater).notMem hts)
        exact .widen (.mono (hreaders.operators least (.binary op lhs rhs) ⟨hlhs, hrhs⟩)
          hlater) _
      · exact sound_read hlhs .refl _
    · exact sound_read hlhs .refl _
  · exact sound_read hlhs .refl _

private theorem sound_arguments : (readArguments fault ts).Sound fault Expr.AllNamed ts := by
  rw [readArguments.eq_def]
  refine .bind (sound_expr ih hts) fun arg after h harg hafter ↦
    .widen (sound_afterArgument harg hafter fun rest hlen hrest ↦ ?_) _
  exact (ih rest (Nat.lt_trans hlen h) (hrest.notMem hts)).arguments

end Expressions

theorem soundReaders (fault : Option LexError) (ts : List Token) (hts : .identifier "" ∉ ts) :
    SoundReaders fault ts := by
  induction hn : ts.length using Nat.strongRecOn generalizing ts with
  | ind n ih =>
    subst hn
    have ih' := fun rest hlen hrest ↦ ih _ hlen rest hrest rfl
    exact ⟨sound_primary ih' hts, sound_expr ih' hts, fun _ _ ↦ sound_operators ih' hts _,
      sound_arguments ih' hts⟩

/-! ## Statements -/

section Statements

variable (fault : Option LexError)

private theorem sound_readNames (ts : List Token) :
    (readNames fault ts).Sound fault (NamesOf ts) ts := by
  induction ts with
  | nil =>
    rw [readNames.eq_def]
    exact sound_read nofun .refl _
  | cons t rest ih =>
    rw [readNames.eq_def]
    rcases t with _ | _ | p | _ | _
    case identifier =>
      refine .widen (.stepOver .refl fun hrest ↦ .mono (.bind ih fun ps after h hps hafter ↦ ?_)
        hrest) _
      exact sound_read (namesOf_cons List.mem_cons_self (hps.mono (List.subset_cons_self _ _)))
        hafter _
    all_goals exact sound_read nofun .refl _

variable {ts : List Token} (hts : .identifier "" ∉ ts)
include hts

theorem sound_readPrototype :
    (readPrototype fault ts).Sound fault (fun p ↦ p.Named ∧ NamesOf ts p.names) ts := by
  rw [readPrototype.eq_def]
  split
  · rename_i f rest
    have hf : f ≠ "" := fun e ↦ hts (by rw [e]; exact List.mem_cons_self)
    refine .stepOver .refl fun hrest ↦ ?_
    split
    · rename_i rest
      refine .widen (.stepOver hrest fun hparams ↦ .mono (.bind (sound_readNames fault rest)
        fun ps after h hps hafter ↦ ?_) hparams) _
      exact .widen (sound_close
        ⟨hf, namesOf_cons List.mem_cons_self (hps.mono hparams.suffix.subset)⟩ hafter) _
    · exact sound_expected hrest _
  · exact sound_expected .refl _

theorem sound_readDeclaration :
    (readDeclaration fault ts).Sound fault (fun p ↦ p.Named ∧ NamesOf ts p.names) ts := by
  rw [readDeclaration.eq_def]
  split
  · exact sound_readPrototype fault List.not_mem_nil
  · rename_i t rest
    refine .stepOver .refl fun hrest ↦ .widen (.mono ?_ hrest) _
    exact (sound_readPrototype fault (hrest.notMem hts)).imp fun p hp ↦
      ⟨hp.1, hp.2.mono hrest.suffix.subset⟩

theorem sound_readDefinition :
    (readDefinition fault ts).Sound fault (fun d ↦ d.Named ∧ NamesOf ts d.proto.names) ts := by
  rw [readDefinition]
  refine .bind (sound_readDeclaration fault hts) fun proto after h hproto hafter ↦ ?_
  have hreaders := soundReaders fault after (hafter.notMem hts)
  refine .widen (.mono (.bind hreaders.expr fun body later h hbody hlater ↦ ?_) hafter) _
  exact sound_read ⟨⟨hproto.1, hbody⟩, hproto.2⟩ hlater _

theorem sound_readStatement :
    (readStatement fault ts).Sound fault (fun s ↦ s.Named ∧ NamesOf ts s.proto.names) ts := by
  rw [readStatement.eq_def]
  split
  · refine .bind (sound_readDefinition fault hts) fun d after h hd hafter ↦ ?_
    have hstatement : (Statement.definition d).Named := hd.1
    exact sound_read ⟨hstatement, hd.2⟩ hafter _
  · refine .bind (sound_readDeclaration fault hts) fun p after h hp hafter ↦ ?_
    have hstatement : (Statement.declaration p).Named := hp.1
    exact sound_read ⟨hstatement, hp.2⟩ hafter _
  · refine .bind (soundReaders fault ts hts).expr fun e after h he hafter ↦ ?_
    have hstatement : (Statement.expression e).Named := he
    exact sound_read ⟨hstatement, fun x hx ↦ .inl (List.mem_singleton.mp hx)⟩ hafter _

end Statements

/-! ## The tokens of a text -/

/-- Whether all characters of a name can stand in a word. -/
def Alphanumeric (x : String) : Prop := ∀ c ∈ x.toList, Text.isAlphanumeric c = true

instance (x : String) : Decidable (Alphanumeric x) :=
  decidable_of_iff (x.toList.all Text.isAlphanumeric = true) List.all_eq_true

private theorem Token.toList_of_ofWord {cs : List Char} {x : String}
    (h : Token.ofWord cs = .identifier x) :
    x.toList = cs := by
  rw [Token.ofWord] at h
  split at h
  · cases h
  · split at h
    · cases h
    · rw [← Token.identifier.inj h, String.toList_ofList]

/-- A name is the longest word at its place. -/
private theorem Lexeme.toList_of_identifier {c : Char} {cs : List Char} {l : Lexeme} {x : String}
    (h : Lexeme.read? c cs = some l) (hx : l.token = .identifier x) :
    Text.isAlphabetic c = true ∧ x.toList = c :: cs.takeWhile Text.isAlphanumeric := by
  have hnumber : ∀ whole cs, (Lexeme.number whole cs).token ≠ .identifier x := by
    intro whole cs
    rw [Lexeme.number.eq_def]
    split <;> exact nofun
  rw [Lexeme.read?] at h
  split at h
  · rename_i hc
    obtain rfl := Option.some.inj h
    exact ⟨hc, Token.toList_of_ofWord hx⟩
  · split at h
    · obtain rfl := Option.some.inj h
      exact absurd hx (hnumber _ _)
    · split at h
      · split at h
        · cases h
        · obtain rfl := Option.some.inj h
          exact absurd hx (hnumber _ _)
      · obtain rfl := Option.some.inj h
        cases hx

/-- The names in a text are words, and a word is never empty. -/
theorem Cursor.word_of_identifier_mem_stream {x : String} (s : Cursor)
    (hx : .identifier x ∈ s.stream.tokens) : x ≠ "" ∧ Alphanumeric x := by
  induction hn : s.rest.length using Nat.strongRecOn generalizing s with
  | ind n ih =>
    subst hn
    rw [Cursor.stream.eq_def] at hx
    split at hx
    · cases hx
    · cases hx
    · rename_i t s' hnext
      rcases List.mem_cons.mp hx with hhead | hlater
      · rw [Cursor.next?] at hnext
        split at hnext
        · cases hnext
        · split at hnext
          · cases hnext
          · rename_i hl
            cases hnext
            obtain ⟨hc, htext⟩ := Lexeme.toList_of_identifier hl hhead.symm
            refine ⟨fun hempty ↦ ?_, fun c hmem ↦ ?_⟩
            · rw [hempty] at htext
              cases htext
            · rw [htext] at hmem
              rcases List.mem_cons.mp hmem with rfl | hmem
              · exact Text.isAlphanumeric_of_isAlphabetic hc
              · exact List.mem_takeWhile_imp hmem
      · exact ih _ (length_rest_lt_of_next? hnext) s' hlater rfl

theorem Cursor.identifier_empty_notMem_stream (s : Cursor) :
    .identifier "" ∉ s.stream.tokens :=
  fun hempty ↦ (s.word_of_identifier_mem_stream hempty).1 rfl

end FloatLang
