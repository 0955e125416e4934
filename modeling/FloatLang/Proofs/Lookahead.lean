import FloatLang.Proofs.Construct
import FloatLang.Proofs.Cutting

/-!
# A fault of the text is final

Readers need one token ahead, so what they keep of a text is the current token and the place of the
lexer behind it. Whatever they are asked for, they get on by pulling one token after the other; the
lexer fails where it meets a fault, and a pull that fails changes nothing.

All of this can be read off the stream of tokens from the current one on. A request that fails
because of the fault has come to the last token in front of it, so that one token is left and the
fault is behind it. In such a stream every request fails at that token: one that succeeds leaves
fewer tokens than there were, and the last token in front of a fault is never stepped over.
-/

namespace FloatLang

open Reading

/-! ## Requests -/

/-- What the readers of a text can be asked for: to step over a token, or to read a construct. -/
inductive Request
  | advance
  | construct (c : Construct)
deriving DecidableEq

namespace Request

/-- What a request is answered with. -/
def Answer : Request → Type
  | advance => Unit
  | construct c => c.Tree

/-- What a request comes to on a stream, and the stream that is left. -/
def read (s : TokenStream) : (r : Request) → Except ReadError r.Answer × TokenStream
  | advance =>
    match s.advance with
    | .ok later => (.ok (), later)
    | .error e => (.error (.lex e), s)
  | construct c => c.read s

end Request

/-! ## What requests leave -/

/-- Tokens are stepped over one after the other and some of them if there is an answer, and a fault
that is met is the one behind the last token. -/
structure TokenStream.Yields {α : Type} (s : TokenStream) (r : Except ReadError α × TokenStream) :
    Prop where
  fault : r.2.fault = s.fault
  left : Reaches s.fault s.tokens r.2.tokens
  met : ∀ e, r.1 = .error (.lex e) → s.fault = some e ∧ ∃ t, r.2.tokens = [t]
  fewer : ∀ a, r.1 = .ok a → s.tokens ≠ [] → r.2.tokens.length < s.tokens.length

namespace TokenStream

variable {α β : Type} {s : TokenStream} {p : α → Prop}

theorem yields_after {x : Reading α s.tokens.length} (hx : x.Sound s.fault p s.tokens) :
    s.Yields (s.after x) where
  fault := rfl
  left := hx.left
  met e he := ⟨hx.met e he, hx.blocked e he⟩
  fewer a ha _ := by
    cases x with
    | read b rest fewer => exact fewer
    | failed e rest noMore => cases ha

theorem Yields.map {r : Except ReadError α × TokenStream} (h : s.Yields r) (f : α → β) :
    s.Yields (r.1.map f, r.2) := by
  obtain ⟨a | e, later⟩ := r
  · exact ⟨h.fault, h.left, fun e he ↦ h.met e (by cases he; rfl), nofun⟩
  · exact ⟨h.fault, h.left, nofun, fun _ _ ↦ h.fewer _ rfl⟩

theorem yields_advance : s.Yields (Request.advance.read s) := by
  obtain ⟨tokens, fault⟩ := s
  cases tokens with
  | nil =>
    refine ⟨rfl, .refl, fun _ he ↦ ?_, fun _ _ hne ↦ absurd rfl hne⟩
    cases he
  | cons t rest =>
    rw [Request.read, advance]
    simp only
    cases hblocking : blocking? fault rest with
    | none =>
      refine ⟨rfl, Reaches.refl.step hblocking, fun _ he ↦ ?_, fun _ _ _ ↦ Nat.lt_succ_self _⟩
      cases he
    | some e =>
      obtain ⟨rfl, rfl⟩ := blocking?_eq_some_iff.mp hblocking
      refine ⟨rfl, .refl, fun e' he ↦ ?_, fun _ ha ↦ ?_⟩
      · cases he
        exact ⟨rfl, t, rfl⟩
      · cases ha

theorem yields_construct (hs : .identifier "" ∉ s.tokens) (c : Construct) :
    s.Yields (c.read s) := by
  cases c with
  | expression => exact yields_after (soundReaders s.fault s.tokens hs).expr
  | topLevel => exact (yields_after (soundReaders s.fault s.tokens hs).expr).map _
  | prototype => exact yields_after (sound_readPrototype s.fault hs)
  | declaration => exact yields_after (sound_readDeclaration s.fault hs)
  | definition => exact yields_after (sound_readDefinition s.fault hs)

/-- Every request does this on the tokens of a text. -/
theorem yields_read (hs : .identifier "" ∉ s.tokens) (r : Request) : s.Yields (r.read s) := by
  cases r with
  | advance => exact yields_advance
  | construct c => exact yields_construct hs c

/-- In front of a fault nothing is answered, and the last token is left. -/
theorem Yields.of_last {t : Token} {e : LexError} {r : Except ReadError α × TokenStream}
    (h : Yields ⟨[t], some e⟩ r) :
    r.2 = ⟨[t], some e⟩ ∧ ∃ err, r.1 = .error err ∧ ∀ e', err = .lex e' → e' = e := by
  obtain ⟨a, later, fault⟩ := r
  obtain rfl : fault = some e := h.fault
  have hne : later ≠ [] := h.left.ne_nil (List.cons_ne_nil t [])
  have hlater : later = [t] := by
    rcases List.suffix_cons_iff.mp h.left.suffix with heq | hnil
    · exact heq
    · exact absurd (List.suffix_nil.mp hnil) hne
  subst hlater
  refine ⟨rfl, ?_⟩
  cases a with
  | ok a => exact absurd (h.fewer a rfl (List.cons_ne_nil t [])) (Nat.lt_irrefl _)
  | error err =>
    refine ⟨err, rfl, ?_⟩
    rintro e' rfl
    exact (Option.some.inj (h.met e' rfl).1).symm

end TokenStream

/-! ## Tokens pulled one at a time -/

/-- A token of a text, or its end, and the place of the lexer that answered it. -/
structure Lookahead where
  /-- The current token, unless the text is at its end. -/
  current : Option Token
  /-- The place behind it. -/
  lexer : Cursor
  /-- The token is the answer to a call. -/
  pulled : ∃ s : Cursor, s.call = (.ok current, lexer)

private theorem Cursor.call_eq_error_of_stream {s : Cursor} {e : LexError}
    (h : s.stream = ⟨[], some e⟩) : s.call.1 = .error e := by
  rw [s.stream_eq_call] at h
  rcases hcall : s.call with ⟨e' | _ | t, s'⟩ <;> rw [hcall] at h <;> cases h
  rfl

namespace Lookahead

/-- Pulls the first token of a text, if it has one. -/
def ofString? (text : String) : Except LexError Lookahead :=
  match h : (Cursor.ofString text).call with
  | (.ok t, s) => .ok ⟨t, s, _, h⟩
  | (.error e, _) => .error e

/-- Pulls the next token. A call that fails changes nothing. -/
def next (p : Lookahead) : Lookahead :=
  match h : p.lexer.call with
  | (.ok t, s) => ⟨t, s, _, h⟩
  | (.error _, _) => p

/-- Pulls `k` tokens. -/
def skip (p : Lookahead) : Nat → Lookahead
  | 0 => p
  | k + 1 => (p.skip k).next

/-- The tokens from the current one on. -/
def stream (p : Lookahead) : TokenStream :=
  match p.current with
  | none => ⟨[], none⟩
  | some t => p.lexer.stream.cons t

/-- What a request comes to, and where it leaves the lexer: a token is pulled for every one that is
stepped over. -/
def request (p : Lookahead) (r : Request) : Except ReadError r.Answer × Lookahead :=
  let (answer, later) := r.read p.stream
  (answer, p.skip (p.stream.tokens.length - later.tokens.length))

/-- Makes one request after the other, whatever they come to. -/
def requests (p : Lookahead) : List Request → Lookahead
  | [] => p
  | r :: rs => (p.request r).2.requests rs

variable {p : Lookahead} {e : LexError} {t : Token} {rest : List Token} {fault : Option LexError}

/-- The current token and the ones behind it are those from the place on where it was pulled. -/
private theorem exists_stream_eq (p : Lookahead) : ∃ s : Cursor, p.stream = s.stream := by
  obtain ⟨s, hs⟩ := p.pulled
  refine ⟨s, ?_⟩
  rw [s.stream_eq_call, hs, stream]
  cases p.current <;> rfl

private theorem identifier_empty_notMem_stream (p : Lookahead) :
    .identifier "" ∉ p.stream.tokens := by
  obtain ⟨s, hs⟩ := p.exists_stream_eq
  rw [hs]
  exact s.identifier_empty_notMem_stream

private theorem ofString?_of_call {text : String} {t : Option Token} {s : Cursor}
    (h : (Cursor.ofString text).call = (.ok t, s)) : ofString? text = .ok ⟨t, s, _, h⟩ := by
  rw [ofString?]
  split
  · rename_i h'
    cases h.symm.trans h'
    rfl
  · rename_i h'
    cases h.symm.trans h'

/-- A text of which a first token can be pulled is one that has a stream. -/
theorem map_stream_ofString? (text : String) :
    (ofString? text).map stream = TokenStream.ofString? text := by
  rw [TokenStream.ofString?, Cursor.stream_eq_call]
  rcases hcall : (Cursor.ofString text).call with ⟨e | t, s⟩
  · rw [ofString?]
    split
    · rename_i h
      cases hcall.symm.trans h
    · rename_i h
      cases hcall.symm.trans h
      rfl
  · rw [ofString?_of_call hcall]
    cases t <;> rfl

private theorem next_of_call {t : Option Token} {s : Cursor} (h : p.lexer.call = (.ok t, s)) :
    p.next = ⟨t, s, _, h⟩ := by
  rw [next]
  split
  · rename_i h'
    cases h.symm.trans h'
    rfl
  · rename_i h'
    cases h.symm.trans h'

private theorem next_of_error (h : p.lexer.call.1 = .error e) : p.next = p := by
  rw [next]
  split
  · rename_i h'
    rw [h'] at h
    cases h
  · rfl

private theorem next_of_end (h : p.current = none) : p.next = p := by
  obtain ⟨current, lexer, s, hs⟩ := p
  obtain rfl : current = none := h
  have hend : IsSkipped [] s.rest := Cursor.call_eq_end_iff.mp (congrArg Prod.fst hs)
  obtain rfl : lexer = ⟨[], s.position.after s.rest⟩ :=
    congrArg Prod.snd (hs.symm.trans (Cursor.call_of_end hend s.position))
  exact next_of_call (Cursor.call_of_end (.spaces 0 nofun) _)

/-- What is pulled after a token is what the stream has after it. -/
theorem stream_next (hp : p.stream = ⟨t :: rest, fault⟩)
    (hblocking : TokenStream.blocking? fault rest = none) : p.next.stream = ⟨rest, fault⟩ := by
  have hlexer : p.lexer.stream = ⟨rest, fault⟩ := by
    rw [stream] at hp
    split at hp
    · cases hp
    · cases hp
      rfl
  rcases hcall : p.lexer.call with ⟨e | t', s⟩
  · rw [p.lexer.stream_eq_call, hcall] at hlexer
    cases hlexer
    cases hblocking
  · rw [next_of_call hcall, ← hlexer, p.lexer.stream_eq_call, hcall, stream]
    cases t' <;> rfl

theorem stream_skip {ts : List Token} (hp : p.stream = ⟨ts, fault⟩)
    (h : Reaches fault ts rest) :
    (p.skip (ts.length - rest.length)).stream = ⟨rest, fault⟩ := by
  induction h with
  | refl => rwa [Nat.sub_self]
  | @step t rest hreaches hblocking ih =>
    have hlength : ts.length - rest.length = ts.length - (t :: rest).length + 1 := by
      have hle := hreaches.suffix.length_le
      rw [List.length_cons] at hle ⊢
      omega
    rw [hlength, skip]
    exact stream_next ih hblocking

/-- A request leaves the lexer where it leaves the stream. -/
theorem stream_request (p : Lookahead) (r : Request) :
    (p.request r).2.stream = (r.read p.stream).2 := by
  have hyields := TokenStream.yields_read p.identifier_empty_notMem_stream r
  have hskip : (p.request r).2.stream = ⟨(r.read p.stream).2.tokens, p.stream.fault⟩ :=
    stream_skip rfl hyields.left
  rw [hskip, ← hyields.fault]

/-- To step over the current token is to pull the next one. -/
theorem request_advance (p : Lookahead) : (p.request .advance).2 = p.next := by
  rw [request, Request.read, TokenStream.advance, stream]
  cases hcurrent : p.current with
  | none => exact (next_of_end hcurrent).symm
  | some t =>
    simp only [TokenStream.cons]
    cases hblocking : TokenStream.blocking? p.lexer.stream.fault p.lexer.stream.tokens with
    | none =>
      simp only [List.length_cons, Nat.add_sub_cancel_left]
      rfl
    | some e =>
      obtain ⟨htokens, hfault⟩ := TokenStream.blocking?_eq_some_iff.mp hblocking
      have herror : p.lexer.call.1 = .error e :=
        Cursor.call_eq_error_of_stream (by rw [← htokens, ← hfault])
      simp only [Nat.sub_self]
      exact (next_of_error herror).symm

/-- One token is left in front of the fault `e`. -/
def Blocked (e : LexError) (p : Lookahead) : Prop := ∃ t, p.stream = ⟨[t], some e⟩

theorem blocked_of_request {r : Request} (h : (p.request r).1 = .error (.lex e)) :
    (p.request r).2.Blocked e := by
  have hyields := TokenStream.yields_read p.identifier_empty_notMem_stream r
  obtain ⟨hfault, t, ht⟩ := hyields.met e h
  refine ⟨t, ?_⟩
  rw [stream_request, ← ht, ← hfault, ← hyields.fault]

theorem Blocked.request (h : p.Blocked e) (r : Request) :
    (p.request r).2 = p ∧
      ∃ err, (p.request r).1 = .error err ∧ ∀ e', err = .lex e' → e' = e := by
  have hyields := TokenStream.yields_read p.identifier_empty_notMem_stream r
  obtain ⟨t, ht⟩ := h
  rw [ht] at hyields
  obtain ⟨hleft, herror⟩ := hyields.of_last
  rw [Lookahead.request, ht]
  refine ⟨?_, herror⟩
  simp only [hleft]
  rw [Nat.sub_self, skip]

theorem Blocked.requests (h : p.Blocked e) (rs : List Request) : p.requests rs = p := by
  induction rs with
  | nil => rfl
  | cons r rs ih => rw [Lookahead.requests, (h.request r).1, ih]

/-- **A fault is final.** Once a request has met a fault of the text, every later request fails and
leaves the current token and the place of the lexer as they are, and one that meets a fault says the
same about it. -/
theorem lex_error_is_permanent (start : Lookahead) (before : List Request) {r : Request}
    (h : ((start.requests before).request r).1 = .error (.lex e)) :
    let p := ((start.requests before).request r).2
    ∀ (later : List Request) (r' : Request),
      p.requests later = p ∧ ((p.requests later).request r').2 = p ∧
      ∃ err, ((p.requests later).request r').1 = .error err ∧
        ∀ e', err = .lex e' → e'.diagnostic = e.diagnostic := by
  intro p later r'
  have hblocked : p.Blocked e := blocked_of_request h
  obtain ⟨hsame, err, herr, hlex⟩ := hblocked.request r'
  rw [hblocked.requests later]
  exact ⟨rfl, hsame, err, herr, fun e' he' ↦ by rw [hlex e' he']⟩

/-- Behind an opening parenthesis a point without digits is met, by every kind of request. -/
theorem lex_error_behind_parenthesis :
    ∃ start, ofString? "(." = .ok start ∧
      (start.request (.construct .expression)).1 = .error (.lex ⟨⟨1, 2⟩⟩) ∧
      let p := (start.request (.construct .expression)).2
      ∀ (later : List Request) (r' : Request),
        p.requests later = p ∧ ((p.requests later).request r').2 = p ∧
        ∃ err, ((p.requests later).request r').1 = .error err ∧
          ∀ e', err = .lex e' → e'.diagnostic = LexError.diagnostic ⟨⟨1, 2⟩⟩ := by
  have hfirst : (Cursor.ofString "(.").call = (.ok (some (.symbol '(')), ⟨['.'], ⟨1, 2⟩⟩) := by
    decide
  have hpoint : (Cursor.mk ['.'] ⟨1, 2⟩).call = (.error ⟨⟨1, 2⟩⟩, ⟨['.'], ⟨1, 2⟩⟩) := by decide
  let start : Lookahead := ⟨_, _, _, hfirst⟩
  have hstream : start.stream = ⟨[.symbol '('], some ⟨⟨1, 2⟩⟩⟩ := by
    rw [stream, Cursor.stream_eq_call, hpoint]
    rfl
  have hfault : (start.request (.construct .expression)).1 = .error (.lex ⟨⟨1, 2⟩⟩) := by
    rw [request, hstream, Request.read, Construct.read, readExpr.eq_def, readPrimary.eq_def]
    rfl
  refine ⟨start, ?_, hfault, lex_error_is_permanent start [] hfault⟩
  exact ofString?_of_call hfirst

end Lookahead

end FloatLang
