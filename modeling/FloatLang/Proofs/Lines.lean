import FloatLang.Proofs.Separators
import FloatLang.Text.Lines

/-!
# Texts line by line

The bytes of a text are cut at the line feeds, and each line is handled on its own, without the
carriage return of its ending. Nothing of this can be told from handling the whole text at once: a
byte of a line feed or a carriage return is nothing but that character, a line feed is a separator
behind every line, and a carriage return at the end of a line is a separator with nothing behind it
or belongs to a comment.
-/

namespace FloatLang

open String (utf8EncodeChar)

namespace Text

/-! ## The bytes of a text -/

private theorem toList_loop (bytes : ByteArray) (i : Nat) (read : List UInt8) :
    ByteArray.toList.loop bytes i read = read.reverse ++ bytes.data.toList.drop i := by
  fun_induction ByteArray.toList.loop bytes i read with
  | case1 i read hlt ih =>
    have hsize : i < bytes.data.size := hlt
    have hnext : bytes.data.toList.drop i = bytes.get! i :: bytes.data.toList.drop (i + 1) := by
      rw [List.drop_eq_getElem_cons hlt, Array.getElem_toList, ByteArray.get!,
        getElem!_pos bytes.data i hsize]
    rw [ih, hnext, List.reverse_cons, List.append_assoc, List.singleton_append]
  | case2 i read hge =>
    rw [List.drop_eq_nil_of_le (Nat.le_of_not_lt hge), List.append_nil]

/-- The bytes of a text. -/
def encode (cs : List Char) : List UInt8 := cs.flatMap utf8EncodeChar

theorem encode_append (cs ds : List Char) : encode (cs ++ ds) = encode cs ++ encode ds :=
  List.flatMap_append

private theorem encode_singleton (c : Char) :
    encode [c] = utf8EncodeChar c := List.flatMap_singleton _ _

private theorem data_ofList (cs : List Char) :
    (String.ofList cs).toByteArray.data = (encode cs).toArray := by
  rw [String.toByteArray_ofList, List.utf8Encode, List.data_toByteArray, encode]

theorem toList_toUTF8 (cs : List Char) : (String.ofList cs).toUTF8.toList = encode cs := by
  rw [String.toUTF8_eq_toByteArray, ByteArray.toList, toList_loop, data_ofList]
  rfl

theorem decode?_encode (cs : List Char) : decode? (encode cs) = some (String.ofList cs) := by
  have hbytes : ByteArray.mk (encode cs).toArray = (String.ofList cs).toByteArray :=
    ByteArray.ext (data_ofList cs).symm
  rw [decode?, hbytes, String.fromUTF8?, dif_pos (String.ofList cs).isValidUTF8]
  rfl

private theorem le_toNat_ofNat (n : Nat) {m k : Nat} (hm : 0 < m) (hk : 0x80 ≤ k)
    (hfits : m + k ≤ 0x100) : 0x80 ≤ (UInt8.ofNat (n % m + k)).toNat := by
  have hlt := Nat.mod_lt n hm
  rw [UInt8.toNat_ofNat', Nat.mod_eq_of_lt (by omega)]
  omega

private theorem toNat_eq_of_mem_utf8EncodeChar {c : Char} {b : UInt8} (hb : b ∈ utf8EncodeChar c)
    (hlt : b.toNat < 0x80) : c.toNat = b.toNat := by
  by_cases hascii : c.val.toNat ≤ 0x7F
  · rw [utf8EncodeChar.eq_def, if_pos hascii] at hb
    obtain rfl := List.mem_singleton.mp hb
    have hc : c.toNat = c.val.toNat := rfl
    rw [UInt8.toNat_ofNat', hc]
    omega
  -- all the bytes of another character are large
  refine absurd hlt (Nat.not_lt.mpr ?_)
  rw [utf8EncodeChar.eq_def] at hb
  simp only [if_neg hascii] at hb
  split at hb
  · simp only [List.mem_cons, List.not_mem_nil, or_false] at hb
    rcases hb with rfl | rfl <;> exact le_toNat_ofNat _ (by decide) (by decide) (by decide)
  split at hb
  · simp only [List.mem_cons, List.not_mem_nil, or_false] at hb
    rcases hb with rfl | rfl | rfl <;> exact le_toNat_ofNat _ (by decide) (by decide) (by decide)
  · simp only [List.mem_cons, List.not_mem_nil, or_false] at hb
    rcases hb with rfl | rfl | rfl | rfl <;>
      exact le_toNat_ofNat _ (by decide) (by decide) (by decide)

private theorem lineFeed_notMem_encode {cs : List Char} (h : '\n' ∉ cs) : lineFeed ∉ encode cs := by
  intro hmem
  obtain ⟨c, hc, hbyte⟩ := List.mem_flatMap.mp hmem
  obtain rfl : c = '\n' := Char.toNat_inj.mp (toNat_eq_of_mem_utf8EncodeChar hbyte (by decide))
  exact h hc

/-! ## The lines of a text -/

/-- A line without the carriage return that belongs to its ending, character by character. -/
def withoutReturn (line : List Char) : List Char :=
  if line.getLast? = some '\r' then line.dropLast else line

private theorem dropReturn_encode (line : List Char) :
    dropReturn (encode line) = encode (withoutReturn line) := by
  rcases List.eq_nil_or_concat line with rfl | ⟨cs, c, rfl⟩
  · rfl
  rw [withoutReturn, List.concat_eq_append, List.getLast?_concat, List.dropLast_concat, dropReturn,
    encode_append, encode_singleton]
  by_cases hc : c = '\r'
  · subst hc
    have hbytes : utf8EncodeChar '\r' = [carriageReturn] := rfl
    rw [hbytes, List.getLast?_concat, List.dropLast_concat, if_pos rfl, if_pos rfl]
  · have hlast : (encode cs ++ utf8EncodeChar c).getLast? ≠ some carriageReturn := by
      rw [List.getLast?_append_of_ne_nil _ String.utf8EncodeChar_ne_nil]
      intro heq
      exact hc (Char.toNat_inj.mp
        (toNat_eq_of_mem_utf8EncodeChar (List.mem_of_getLast? heq) (by decide)))
    rw [if_neg hlast, if_neg fun e ↦ hc (Option.some.inj e), encode_append, encode_singleton]

private theorem byteLines_of_ne_nil {bytes : List UInt8} (h : bytes ≠ []) :
    byteLines bytes = (firstLine bytes).1 :: byteLines (firstLine bytes).2 := by
  obtain ⟨b, bytes, rfl⟩ := List.exists_cons_of_ne_nil h
  rw [byteLines]

variable {line : List Char} (hline : '\n' ∉ line)
include hline

private theorem bne_of_mem_encode : ∀ b ∈ encode line, (b != lineFeed) = true :=
  fun _ hb ↦ bne_iff_ne.mpr fun e ↦ lineFeed_notMem_encode hline (e ▸ hb)

theorem byteLines_encode (hne : line ≠ []) : byteLines (encode line) = [encode line] := by
  have hbytes : encode line ≠ [] := by
    obtain ⟨c, cs, rfl⟩ := List.exists_cons_of_ne_nil hne
    exact List.append_ne_nil_of_left_ne_nil String.utf8EncodeChar_ne_nil _
  have hall := bne_of_mem_encode hline
  rw [byteLines_of_ne_nil hbytes, firstLine, List.dropWhile_eq_nil_iff.mpr hall,
    List.takeWhile_eq_self_iff.mpr hall, byteLines]

/-- What stands in front of the first line feed is a line, but for a carriage return at its end. -/
theorem byteLines_encode_append (rest : List Char) :
    byteLines (encode (line ++ '\n' :: rest)) =
      encode (withoutReturn line) :: byteLines (encode rest) := by
  have hbytes : encode (line ++ '\n' :: rest) = encode line ++ lineFeed :: encode rest :=
    encode_append line ('\n' :: rest)
  have hall := bne_of_mem_encode hline
  rw [hbytes, byteLines_of_ne_nil (by simp), firstLine, List.takeWhile_append_of_pos hall,
    List.dropWhile_append_of_pos hall, List.takeWhile_cons_of_neg (by decide),
    List.dropWhile_cons_of_neg (by decide), List.append_nil]
  simp only
  rw [dropReturn_encode]

end Text

namespace Session

open Text

/-! ## Reading line by line -/

private theorem handle_empty : handle "" = pure () := by
  have hstream : (Cursor.ofString "").stream = ⟨[], none⟩ := Cursor.stream_of_skipped rfl
  rw [handle_eq, Script.ofText, hstream, Script.ofStream_eq]
  show act (Script.ofTokens none []) = _
  rw [Script.ofTokens_nil]
  rfl

private theorem handleLine_encode (cs : List Char) :
    handleLine (encode cs) = handle (String.ofList cs) := by
  rw [handleLine, decode?_encode]

private theorem readLines_nil : readLines false [] = pure () := rfl

private theorem readLines_cons (line : List UInt8) (lines : List (List UInt8)) :
    readLines false (line :: lines) = (do handleLine line; readLines false lines) := rfl

/-- A carriage return at the end of a line makes no difference: in a comment it has no token, and
elsewhere it is a separator with nothing behind it. -/
theorem equivalent_handle_withoutReturn {line : List Char} (hline : '\n' ∉ line) :
    Equivalent (handle (String.ofList (withoutReturn line))) (handle (String.ofList line)) := by
  rw [withoutReturn]
  split
  · rename_i hlast
    obtain ⟨cs, rfl⟩ := List.getLast?_eq_some_iff.mp hlast
    rw [List.dropLast_concat]
    by_cases hcomment : '#' ∈ cs
    · -- the first comment goes on to the end of the line, whatever else stands in it
      obtain ⟨pre, comment, rfl, hpre⟩ := List.eq_append_cons_of_mem hcomment
      have hj : Joint pre '#' := ⟨by decide, by decide, .inr (commentsEnd_of_notMem hpre)⟩
      have hstream (ds : List Char) (hds : '\n' ∉ ds) :
          (Cursor.ofString (String.ofList (pre ++ '#' :: ds))).stream =
            (Cursor.mk pre .start).stream.followedBy ⟨[], none⟩ := by
        rw [Cursor.ofString, String.toList_ofList, Cursor.stream_append hj,
          Cursor.stream_comment hds]
      rw [List.append_assoc, List.cons_append, handle_eq, handle_eq, Script.ofText, Script.ofText,
        hstream comment fun hmem ↦ hline (by simp [hmem]),
        hstream (comment ++ ['\r']) fun hmem ↦ hline (by simp at hmem ⊢; exact .inr hmem)]
      exact .refl _
    · have htext : String.ofList (cs ++ ['\r']) = (String.ofList cs).push '\r' ++ "" := by
        rw [String.append_empty, ← String.toList_inj, String.toList_ofList, String.toList_push,
          String.toList_ofList]
      have hcs : '#' ∉ lastLine (String.ofList cs).toList := by
        rw [String.toList_ofList]
        exact fun hmem ↦ hcomment ((List.rtakeWhile_suffix _ _).subset hmem)
      have hcut := equivalent_handle_append (String.ofList cs) "" (c := '\r') (by decide) (.inr hcs)
      rw [handle_empty, bind_pure_unit] at hcut
      rw [htext]
      exact hcut.symm
  · exact .refl _

theorem equivalent_readLines (cs : List Char) :
    Equivalent (readLines false (byteLines (encode cs))) (handle (String.ofList cs)) := by
  induction hn : cs.length using Nat.strongRecOn generalizing cs with
  | ind n ih =>
    subst hn
    by_cases hfeed : '\n' ∈ cs
    · -- the text is cut at its first line feed
      obtain ⟨line, rest, rfl, hline⟩ := List.eq_append_cons_of_mem hfeed
      have htext : String.ofList (line ++ '\n' :: rest) =
          (String.ofList line).push '\n' ++ String.ofList rest := by
        rw [← String.toList_inj, String.toList_append, String.toList_push, String.toList_ofList,
          String.toList_ofList, String.toList_ofList, List.append_assoc, List.singleton_append]
      have hcut := equivalent_handle_append (String.ofList line) (String.ofList rest)
        (c := '\n') (by decide) (.inl rfl)
      rw [byteLines_encode_append hline, readLines_cons, handleLine_encode, htext]
      refine .trans (.bind (equivalent_handle_withoutReturn hline) ?_) hcut.symm
      exact ih rest.length (by simp; omega) rest rfl
    · rcases cs with _ | ⟨c, cs⟩
      · rw [String.ofList_nil, handle_empty, show encode [] = [] from rfl, byteLines, readLines_nil]
        exact .refl _
      · rw [byteLines_encode hfeed (List.cons_ne_nil _ _), readLines_cons, handleLine_encode,
          readLines_nil, bind_pure_unit]
        exact .refl _

/-- **Statement separators compose.** In every session, a text that is cut at a line feed is handled
like its two parts one after the other; so is one that is cut at another separator that stands in no
comment. Hence reading the bytes of a text line by line is handling the text. All output is the
same, and so is what the session becomes and the failure it ends with, except for the place at which
a point without digits is told. -/
theorem separators_compose :
    (∀ (a b : String) (c : Char), Text.separates c = true → (c = '\n' ∨ '#' ∉ lastLine a.toList) →
      Equivalent (handle (a.push c ++ b)) (do handle a; handle b)) ∧
    ∀ text : String, Equivalent (readAll false text.toUTF8) (handle text) := by
  refine ⟨fun a b c hc hcomment ↦ equivalent_handle_append a b hc hcomment, fun text ↦ ?_⟩
  have hlines := equivalent_readLines text.toList
  rwa [← toList_toUTF8, String.ofList_toList] at hlines

/-- The line behind a comment may be cut at a semicolon, also in the middle of an expression. -/
theorem equivalent_handle_behind_comment :
    Text.separates ';' = true ∧ '#' ∉ lastLine "def f(x) # one\n x + ".toList ∧
      Equivalent (handle ("def f(x) # one\n x + ".push ';' ++ "2 * x"))
        (do handle "def f(x) # one\n x + "; handle "2 * x") :=
  ⟨by decide, by decide, separators_compose.1 _ _ _ (by decide) (.inr (by decide))⟩

end Session

end FloatLang
