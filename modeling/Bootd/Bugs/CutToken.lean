import Bootd.Config.Quote
import Bootd.Config.Refusals
import Bootd.Config.Scanner

/-!
# A token that is too long may be cut

`gen_tokenize_next` copies a token into `w` with the `strncpy` of src/replace.c:7-26,
which writes its NUL behind the buffer if the token does not fit. So the 255 bytes
it leaves end at `w[255]`, where nothing was written: if this byte happens to be 0,
`strlen(w)` is 255, and `parse_string_add` (src/parse.c:94-98) does not see that the
token was longer. Its first 255 bytes are stored as the name or the value.

Counterexample: a name of 256 bytes (`long_name_stored`).

`rejects_iff`: the parser rejects, and stores no piece of a token, exactly if it
comes to a word that it refuses for its length and passed no token of 256 bytes
before. The report shows the first 255 bytes of the word, and it is passed to
`log_msg` as the format (src/tokenize.c:247-251): there must be no percent sign in
it, except in pairs.
-/
namespace Bootd

open Bootd.Core
open Bootd.Core.Fuel

/-- `parse_file` ends with the message about an oversized token, and the names and values in the tables are
words of the file from its first one on, none of them shortened. -/
def Rejects (fname : CStr) (fd : List Chunk) (stack : Nat → Locals) (mem : EntId → Entry) : Prop :=
  let text := (fd.map Subtype.val).flatten
  ∃ r st', Settles .fuel (fun k => parseSub (fileSource fname text) stack k) (fileStart fname fd mem)
      (.error (.report r) st') ∧ Oversized r.msg ∧ st'.words 0 <+: wordsOf (tokens none text)

/-- The parser comes to a word that it refuses for its length, none of the tokens that it took
before has 256 bytes, and the report has no percent sign of its own: neither the name of the file
nor what is shown of the word has one. -/
def RefusedUncut (fname : CStr) (text : List UInt8) (stack : Nat → Locals) : Prop :=
  ∃ pre ts σ head v, tokens (some tokenizeBufsize) text = pre ++ ts ∧
    Reaches fname stack ⟨(stack 0).w.last, 1, .empty⟩ (pre ++ ts) σ ts ∧ LongHere fname σ head v ts ∧
    (∀ t ∈ pre ++ head, t.length < parseStringMax) ∧
    Log.formatSafe fname = true ∧ Log.formatSafe (v.take 255) = true

section
variable {fname : CStr} {fd : List Chunk} {stack : Nat → Locals} {σ : Scan}
  {text : List UInt8} {head ts rest pre : List CStr} {t : CStr}

/-! ## The words that are stored -/

/-- A token with more than one byte is a word. -/
theorem long_word (ht : 1 < t.length) (name : Bool) : wordStep name t = ([t], false) := by
  have hne : ∀ d : UInt8, t ≠ [d] := by
    rintro d rfl
    exact lt_irrefl 1 ht
  have hval : IsValue t := ⟨hne _, hne _, hne _, hne _⟩
  cases name
  · exact if_pos hval
  · exact if_neg (hne _)

/-- Words are tokens. -/
theorem mem_words {name : Bool} {v : CStr} (h : v ∈ Mealy.out wordStep name ts) : v ∈ ts := by
  induction ts generalizing name with
  | nil => cases h
  | cons t ts ih =>
    rw [Mealy.out_cons, List.mem_append] at h
    rcases h with h | h
    · have hv : v = t := by
        unfold wordStep at h
        split at h <;> split at h <;> simp_all
      rw [hv]
      exact List.mem_cons_self
    · exact List.mem_cons_of_mem _ (ih h)

theorem words_short (h : ∀ t ∈ ts, t.length < parseStringMax) : (wordsOf ts).map (List.take 255) = wordsOf ts := by
  have hmax : parseStringMax = 256 := rfl
  refine (List.map_congr_left fun v hv => ?_).trans (List.map_id _)
  have hlen := h v (mem_words hv)
  exact List.take_of_length_le (by omega)

theorem first_long (h : ∃ t ∈ ts, parseStringMax ≤ t.length) : ∃ a t b, ts = a ++ t :: b ∧
    parseStringMax ≤ t.length ∧ ∀ u ∈ a, u.length < parseStringMax := by
  obtain ⟨t, ht⟩ := Option.ne_none_iff_exists'.mp fun hnone =>
    h.elim fun t ⟨hmem, hlen⟩ => List.find?_eq_none.mp hnone t hmem (decide_eq_true hlen)
  obtain ⟨hlen, a, b, hts, ha⟩ := List.find?_eq_some_iff_append.mp ht
  refine ⟨a, t, b, hts, of_decide_eq_true hlen, fun u hu => ?_⟩
  simpa using ha u hu

/-- The first 255 bytes of the words are the words of the file as long as no token has more. -/
theorem uncut_iff (h : tokens (some tokenizeBufsize) text = ts ++ rest) :
    (wordsOf ts).map (List.take 255) <+: wordsOf (tokens none text) ↔ ∀ t ∈ ts, t.length < parseStringMax := by
  have hmax : parseStringMax = 256 := rfl
  have hsize : tokenizeBufsize = 4096 := rfl
  constructor
  · intro hpre
    by_contra hlong
    push Not at hlong
    obtain ⟨a, t, b, rfl, hlen, ha⟩ := first_long hlong
    have hta : tokens (some tokenizeBufsize) text = a ++ (t :: b ++ rest) := by rw [h, List.append_assoc]
    obtain ⟨us, hus, hcut⟩ := tokens_cut (by decide) hta fun u hu => (ha u hu).trans (by omega)
    have hword := long_word (show 1 < t.length by omega)
    -- behind the words in front of it
    rw [wordsOf, Mealy.out_append, List.map_append, ← wordsOf, words_short ha, hus, wordsOf, wordsOf,
      Mealy.out_append, List.prefix_append_right_inj, Mealy.out_cons, hword] at hpre
    rcases hcut t rfl with rfl | ⟨t', ht', hbegins⟩
    · exact absurd hpre (by simp)
    · obtain ⟨us', rfl⟩ := List.head?_eq_some_iff.mp ht'
      have hle := hbegins.length_le
      rw [Mealy.out_cons, long_word (by omega)] at hpre
      have heq : t.take 255 = t' := (List.cons_prefix_cons.mp hpre).1
      have hlt : t'.length ≤ 255 := heq ▸ List.length_take_le ..
      omega
  · intro hshort
    obtain ⟨us, hus, -⟩ := tokens_cut (by decide) h fun t ht => (hshort t ht).trans (by omega)
    rw [words_short hshort, hus, wordsOf, wordsOf, Mealy.out_append]
    exact List.prefix_append _ _

/-! ## Runs -/

/-- The words of a statement in front of the one that is too long. -/
theorem LongHere.words (h : LongHere fname σ head t ts) :
    ts ≠ [] ∧ wordsOf head = head ∧ ∃ more, ts = head ++ more := by
  cases h with
  | name rest hn => exact ⟨by simp, rfl, _, rfl⟩
  | file rest hn =>
    refine ⟨by simp, ?_, rest, rfl⟩
    rw [wordsOf, Mealy.out_cons, name_word hn]
    rfl
  | value rest hd =>
    refine ⟨by simp, ?_, _, rfl⟩
    rw [wordsOf, Mealy.out_cons, name_word hd.name, (values_words hd.plain).1]
    rfl

/-- A word that is refused for its length. -/
theorem long_run (mem : EntId → Entry) (hts : tokens (some tokenizeBufsize) (fd.map Subtype.val).flatten = pre ++ ts)
    (hreach : Reaches fname stack ⟨(stack 0).w.last, 1, .empty⟩ (pre ++ ts) σ ts)
    (hlong : LongHere fname σ head t ts) :
    ∃ (r : Report) (st' : ParseState (Scanner fname (fd.map Subtype.val).flatten)),
      Settles .fuel (fun k => parseSub (fileSource fname (fd.map Subtype.val).flatten) stack k)
        (fileStart fname fd mem) (.error r.stop st') ∧ r.file = fname ∧ r.msg = oversizedText t ∧
      st'.words 0 = (wordsOf (pre ++ head)).map (List.take 255) := by
  let S := fileSource fname (fd.map Subtype.val).flatten
  let st : ParseState (Scanner fname (fd.map Subtype.val).flatten) := { fileStart fname fd mem with calls := 1 }
  have hr : S.rest st.tok = pre ++ ts := (new_pending fname fd).trans hts
  obtain ⟨hne, hwords, -⟩ := hlong.words
  obtain ⟨pre', heq, hfin, hstops⟩ := reaches_stops (S := S) hreach
  cases List.append_cancel_right heq
  obtain ⟨r, st', hrun, hfile, hmsg, hst'⟩ := hstops _ _ (long_stops hlong) st (stack 0).w none
    (stack 0).result rfl
    rfl rfl hr (by simp)
  refine ⟨r, st', hrun.congr fun _ => rfl, hfile, hmsg, hst'.trans ?_⟩
  rw [wordsOf, Mealy.out_append, hfin.resolve_left hne, ← wordsOf, ← wordsOf, hwords, List.map_append]

end

/-- **When a token that is too long is rejected**: for every file and every content of the word buffers. -/
theorem rejects_iff (fname : CStr) (fd : List Chunk) (stack : Nat → Locals) (mem : EntId → Entry) :
    Rejects fname fd stack mem ↔ RefusedUncut fname (fd.map Subtype.val).flatten stack := by
  let S := fileSource fname (fd.map Subtype.val).flatten
  let st := fileStart fname fd mem
  have hr : S.rest st.tok = tokens (some tokenizeBufsize) (fd.map Subtype.val).flatten := new_pending fname fd
  constructor
  · rintro ⟨r, st', hrun, hover, hwords⟩
    have hfails : Fails (fun k => parseSub S stack k) st := ⟨r, st', hrun⟩
    rcases parse_total S stack st with ⟨f, rest, σ', hb⟩ | ⟨σ', ts, hreach, hs⟩ | ⟨σ', ts, hreach, hf⟩
    · obtain ⟨p, st'', hok, -⟩ := parse_block hb
      exact absurd hfails (Returned.not_fails ⟨p, st'', hok⟩)
    · exact absurd hfails (parse_stuck hreach hs).not_fails
    rcases refused_cases hf with ⟨head, v, hlong⟩ | hother
    · obtain ⟨pre, hts, -⟩ := reaches_stops hreach
      rw [hts] at hreach hr
      have hlong : LongHere fname σ' head v ts := hlong
      have hreach : Reaches fname stack ⟨(stack 0).w.last, 1, .empty⟩ (pre ++ ts) σ' ts := hreach
      obtain ⟨r', st'', hrun', hfile, hmsg, hst''⟩ := long_run mem hr.symm hreach hlong
      obtain ⟨hstop, rfl⟩ : r'.stop = .report r ∧ st'' = st' := by
        have heq := hrun'.unique hrun
        exact ⟨EStateM.Result.error.inj heq |>.1, EStateM.Result.error.inj heq |>.2⟩
      obtain ⟨-, hname, hword⟩ := stop_report hstop
      rw [hfile] at hname
      rw [hmsg, oversizedText_safe] at hword
      rw [hst''] at hwords
      obtain ⟨-, -, more, rfl⟩ := hlong.words
      have huncut := uncut_iff (hr.symm.trans (List.append_assoc pre head more).symm)
      exact ⟨pre, _, σ', head, v, hr.symm, hreach, hlong, huncut.mp hwords, hname, hword⟩
    · obtain ⟨r', st'', hrun', -, hshort⟩ := parse_otherwise hreach hother
      have hstop : r'.stop = .report r := EStateM.Result.error.inj (hrun'.unique hrun) |>.1
      obtain ⟨rfl, -⟩ := stop_report hstop
      exact absurd hover hshort.not_oversized
  · rintro ⟨pre, ts, σ, head, v, hts, hreach, hlong, hshort, hname, hword⟩
    obtain ⟨r, st', hrun, hfile, hmsg, hwords⟩ := long_run mem hts hreach hlong
    obtain ⟨-, -, more, rfl⟩ := hlong.words
    rw [stop_safe (by rw [hfile, hname]) (by rw [hmsg, oversizedText_safe, hword])] at hrun
    refine ⟨r, st', hrun, hmsg ▸ List.prefix_append _ _, ?_⟩
    rw [hwords]
    exact (uncut_iff (by rw [hts, List.append_assoc])).mpr hshort

section
variable {n : CStr}

/-- A name as a statement of its own. -/
def nameText (n : CStr) : List UInt8 := n ++ 32 :: 59 :: []

theorem nameText_tokens (hne : n ≠ []) (hplain : ∀ c ∈ n, IsPlain c) (hn : n.length < tokenizeBufsize) :
    tokens (some tokenizeBufsize) (nameText n) = [n, tokSemi] ∧ n ∈ tokens none (nameText n) := by
  have htokens : tokens (some tokenizeBufsize) (nameText n) = [n, tokSemi] := by
    rw [nameText, plain_blank hne hplain hn, tokens_semi limit_ne, tokens_nil]
    rfl
  have hcut : tokens (some tokenizeBufsize) (nameText n) = [n] ++ [tokSemi] := htokens
  obtain ⟨us, hus, -⟩ := tokens_cut (by decide) hcut (by simpa using hn)
  exact ⟨htokens, hus ▸ List.mem_append_left us List.mem_cons_self⟩

/-- The statement is read, however long the name is. -/
theorem nameText_returns (hne : n ≠ []) (hplain : ∀ c ∈ n, IsPlain c) (hn : n.length < tokenizeBufsize)
    (hlong : parseStringMax ≤ n.length) (fd : List Chunk) (htext : (fd.map Subtype.val).flatten = nameText n) :
    Returned (fun k => parseSub (fileSource [] (fd.map Subtype.val).flatten) (fun _ => plainLocals) k)
      (fileStart [] fd fun _ => .zero) := by
  have hmax : parseStringMax = 256 := rfl
  let S := fileSource [] (fd.map Subtype.val).flatten
  let st := fileStart [] fd fun _ => .zero
  have hr : S.rest st.tok = n :: [] ++ tokSemi :: [] :=
    (new_pending [] fd).trans (htext ▸ (nameText_tokens hne hplain hn).1)
  have hword : word 0 n = some (n.take 255) := by rw [word, if_neg (by omega), if_pos rfl]
  have hfile : ([] : CStr).length < parseStringMax := by decide
  obtain ⟨T, hT, -⟩ := addName_room (T := .empty) hfile hword (by decide)
  have hclose : n ≠ tokClose := by
    rintro rfl
    exact absurd hlong (by decide)
  have head : Head [] ⟨0, 1, .empty⟩ n [] T := ⟨hclose, by simp, by decide, congrArg (Option.bind · _) hT⟩
  have hb : Block S.fname (fun _ => plainLocals) (st.scan fun _ => plainLocals) (.leaf (stored 0 n) [] .nil)
      (n :: [] ++ tokSemi :: []) [] _ := .leaf head (.eof _)
  rw [← hr] at hb
  obtain ⟨p, st', hrun, -⟩ := parse_block hb
  exact ⟨p, st', hrun⟩

end

/-- **Counterexample**: a name of 256 bytes is stored without its last byte, and the parser returns. -/
theorem long_name_stored : ¬ ∀ (fname : CStr) (fd : List Chunk) (stack : Nat → Locals) (mem : EntId → Entry),
    (∃ t ∈ tokens none (fd.map Subtype.val).flatten, parseStringMax ≤ t.length) → Rejects fname fd stack mem := by
  intro hall
  obtain ⟨n, hn⟩ : ∃ n : CStr, n = List.replicate 256 97 := ⟨_, rfl⟩
  have hlen : n.length = 256 := by rw [hn, List.length_replicate]
  have hne : n ≠ [] := List.ne_nil_of_length_pos (by omega)
  have hplain : ∀ c ∈ n, IsPlain c := fun c hc => by
    rw [hn] at hc
    rw [List.eq_of_mem_replicate hc]
    decide
  have hlt : n.length < tokenizeBufsize := by rw [hlen]; decide
  have htext := chunks_text (nameText n)
  have hmem := (nameText_tokens hne hplain hlt).2
  rw [← htext] at hmem
  obtain ⟨r, st', hrun, -⟩ := hall [] (chunks (nameText n)) (fun _ => plainLocals) (fun _ => .zero) ⟨n, hmem, hlen.ge⟩
  exact (nameText_returns hne hplain hlt hlen.ge _ htext).not_fails ⟨r, st', hrun⟩

end Bootd
