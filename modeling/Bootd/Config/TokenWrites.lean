import Bootd.Config.Tokenize

/-!
# What the tokenizer writes to its token buffers

`scanToken` keeps the bytes of a token in a list and puts them into the slot at the
end. Here every write of the loop to `tok->b` stands in a list, with its place, as
the source makes them: the NUL in front of the loop, the characters, the NULs of the
loop's exits, and the one behind the loop, where `t` is `TOKENIZE_BUFSIZE + 1`, or
`TOKENIZE_BUFSIZE` if the loop ended because the buffer is full.

* `scanned_store`: these writes make the slot what `Scanned.slot` says.
* `scanWrites_inside`: only the write behind the loop is behind the array.
* `slot_terminated`: which complete tokens have their NUL.
* `scans_tokenize`: `scans` is `gen_tokenize_tokenize`, with its writes.
-/
namespace Bootd

/-- A place in a buffer and what is written there. -/
abbrev Write := Nat × UInt8

/-- The buffer after some writes. -/
def store (w : Buf) (us : List Write) : Buf := us.foldl (fun w u => w.set u.1 u.2) w

/-- mirrors src/tokenize.c:132-171 -/
def switchWrites (l : Lex) (c : UInt8) : List Write :=
  if c = 92 ∨ c = 34 ∨ c = 39 then []
  else if c = 13 ∨ c = 10 ∨ c = 32 ∨ c = 9 then
    if l.b ≠ [] then [(l.b.length, 0)] else []
  else if c = 35 then []
  else if c = 59 then
    if l.b = [] then [(l.b.length, 59), (l.b.length + 1, 0)] else [(l.b.length, 0)]
  else [(l.b.length, c)]

/-- What a round of the loop writes. mirrors src/tokenize.c:87-172 -/
def charWrites (l : Lex) (c : UInt8) : List Write :=
  if (c = 10 ∨ c = 13) ∧ l.com then []
  else if l.com then []
  else if c = 0 then
    if l.b = [] then [] else [(l.b.length, 0)]
  else if l.esc then [(l.b.length, c)]
  else if l.quo = .double ∧ c = 34 then []
  else if l.quo = .single ∧ c = 39 then []
  else if l.quo ≠ .none then [(l.b.length, c)]
  else switchWrites l c

/-- What the loop and the lines behind it write. mirrors src/tokenize.c:83-181 -/
def scanWrites : Nat → Lex → GenTokenize → List Write
  | 0, _, _ => []
  | n + 1, l, tk =>
    -- the loop ends with `t = TOKENIZE_BUFSIZE`
    if l.Full (some tokenizeBufsize) then [(l.b.length, 0)]
    else match GenTokenize.read tk with
      | (false, _) => []
      | (true, tk) =>
        let c := tk.b.getD tk.s 0
        charWrites l c ++ match lexChar l c with
          | .go l => scanWrites n l (tk.advance c)
          -- an exit sets `t = TOKENIZE_BUFSIZE + 1`
          | .tok _ => [(tokenizeBufsize + 1, 0)]
          | .back _ => [(tokenizeBufsize + 1, 0)]

/-- One round of the outer loop: what it writes to its slot, and the slot's buffer if it becomes a token. -/
structure TokScan where
  writes : List Write
  token : Option Buf

/-- `gen_tokenize_tokenize` with its writes. mirrors src/tokenize.c:66-183 -/
def GenTokenize.scans : Nat → GenTokenize → Option (List TokScan × GenTokenize)
  | 0, _ => none
  | n + 1, tk =>
    if tk.ts = tk.te then some ([], tk)
    else do
      let slot := tk.t tk.te
      let r ← scanToken (tk.left + 1) .start slot.x slot.y tk
      let b := (r.slot slot.b).b
      let writes := (0, 0) :: scanWrites (tk.left + 1) .start tk
      if r.full then
        let (ss, tk) ← GenTokenize.scans n (tk.stored r)
        return (⟨writes, some b⟩ :: ss, tk)
      else some ([⟨writes, none⟩], { r.tk with t := Function.update tk.t tk.te (r.slot slot.b) })

/-- Only the array is written to. -/
def TokScan.Inside (s : TokScan) : Prop := ∀ u ∈ s.writes, u.1 < tokenizeBufsize

/-- A token ends inside its buffer. -/
def TokScan.Terminated (s : TokScan) : Prop := ∀ b ∈ s.token, 0 ∈ b.take tokenizeBufsize

section
variable {l : Lex} {c : UInt8} {n x y : Nat} {tk tk' : GenTokenize} {r : Scanned} {w : Buf} {b : CStr}
  {us vs : List Write}

theorem store_append : store w (us ++ vs) = store (store w us) vs := List.foldl_append

@[simp] theorem store_length : (store w us).length = w.length := by
  induction us generalizing w with
  | nil => rfl
  | cons u us ih => exact ih.trans List.length_set

/-! ## A round -/

/-- What is written to the slot, with the old bytes behind it. -/
def overwrite (b : CStr) (w : Buf) : Buf := b ++ w.drop b.length

theorem overwrite_length (h : b.length ≤ w.length) : (overwrite b w).length = w.length := by
  simp only [overwrite, List.length_append, List.length_drop]
  omega

theorem overwrite_set (h : b.length < w.length) (c : UInt8) :
    (overwrite b w).set b.length c = overwrite (b ++ [c]) w := by
  unfold overwrite
  rw [List.set_append_right _ _ le_rfl, Nat.sub_self, List.drop_eq_getElem_cons h, List.set_cons_zero,
    List.length_append, List.append_assoc]
  rfl

/-- The buffer after a round: what there is of the token, with a NUL behind it if it is complete. -/
def LexStep.overwrite (w : Buf) : LexStep → Buf
  | .go l => Bootd.overwrite l.b w
  | .tok b => (Bootd.overwrite b w).set b.length 0
  | .back b => (Bootd.overwrite b w).set b.length 0

theorem switchWrites_store (h : l.b.length < w.length) :
    store (overwrite l.b w) (switchWrites l c) = (lexSwitch l c).overwrite w := by
  unfold switchWrites lexSwitch
  by_cases h92 : c = 92
  · rw [if_pos (.inl h92), if_pos h92]
    rfl
  by_cases h34 : c = 34
  · rw [if_pos (.inr (.inl h34)), if_neg h92, if_pos h34]
    rfl
  by_cases h39 : c = 39
  · rw [if_pos (.inr (.inr h39)), if_neg h92, if_neg h34, if_pos h39]
    rfl
  rw [if_neg (by tauto), if_neg h92, if_neg h34, if_neg h39]
  split
  · split <;> rfl
  split; · rfl
  split
  · rename_i h59
    split
    · rename_i hnil
      rw [hnil] at h ⊢
      exact congrArg (·.set 1 0) (overwrite_set h 59)
    · rfl
  · exact overwrite_set h c

/-- The writes of a round are those of the token it leaves. -/
theorem charWrites_store (h : l.b.length < w.length) :
    store (overwrite l.b w) (charWrites l c) = (lexChar l c).overwrite w := by
  unfold charWrites lexChar
  split; · rfl
  split; · rfl
  split
  · split <;> rfl
  split; · exact overwrite_set h c
  split; · rfl
  split; · rfl
  split; · exact overwrite_set h c
  exact switchWrites_store h

theorem switchWrites_place : ∀ u ∈ switchWrites l c, u.1 ≤ max l.b.length 1 := by
  unfold switchWrites
  split; · simp
  split
  · split <;> simp
  split; · simp
  split
  · split <;> simp_all
  · simp

/-- A round writes behind the token, or `;` and a NUL at the start. -/
theorem charWrites_place : ∀ u ∈ charWrites l c, u.1 ≤ max l.b.length 1 := by
  unfold charWrites
  split; · simp
  split; · simp
  split
  · split <;> simp
  split; · simp
  split; · simp
  split; · simp
  split; · simp
  exact switchWrites_place

theorem charWrites_inside (h : ¬l.Full (some tokenizeBufsize)) : ∀ u ∈ charWrites l c, u.1 < tokenizeBufsize := by
  intro u hu
  have hplace := charWrites_place u hu
  have hlt : l.b.length < tokenizeBufsize := Nat.lt_of_not_le fun hle => h ⟨_, rfl, hle⟩
  unfold tokenizeBufsize at *
  omega

/-! ## A scan -/

/-- The characters of a token fill the array at most. -/
theorem lexChar_fits (h : ¬l.Full (some tokenizeBufsize)) : (lexChar l c).b.length ≤ tokenizeBufsize := by
  have hlt : l.b.length < tokenizeBufsize := Nat.lt_of_not_le fun hle => h ⟨_, rfl, hle⟩
  rcases lexChar_b l c with hb | ⟨-, hb⟩
  · rw [hb]
    exact hlt.le
  · rw [hb, List.length_append]
    exact hlt

/-- Behind the array nothing is changed. -/
theorem store_outside (hw : w.length = tokenizeBufsize) : store w [(tokenizeBufsize + 1, 0)] = w :=
  List.set_eq_of_length_le (by rw [hw]; exact Nat.le_succ _)

/-- The writes of the loop and of the line behind it leave the token in its slot. -/
theorem scanWrites_store (hscan : scanToken n l x y tk = some r) (hw : w.length = tokenizeBufsize)
    (hl : l.b.length ≤ tokenizeBufsize) : store (overwrite l.b w) (scanWrites n l tk) =
      if r.full then (overwrite r.b w).set r.b.length 0 else overwrite r.b w := by
  induction n generalizing l x y tk with
  | zero => cases hscan
  | succ n ih =>
    unfold scanToken at hscan
    unfold scanWrites
    split at hscan
    · rename_i hfull
      cases hscan
      rw [if_pos hfull]
      rfl
    rename_i hfull
    rw [if_neg hfull]
    have hlt : l.b.length < w.length := hw ▸ Nat.lt_of_not_le fun hle => hfull ⟨_, rfl, hle⟩
    cases hread : GenTokenize.read tk with
    | mk more tk' =>
      rw [hread] at hscan
      cases more with
      | false =>
        cases hscan
        rfl
      | true =>
        have hround := charWrites_store (c := tk'.b.getD tk'.s 0) hlt
        have hfits := lexChar_fits (c := tk'.b.getD tk'.s 0) hfull
        simp only [store_append, hround]
        cases hlex : lexChar l (tk'.b.getD tk'.s 0) with
        | go l' =>
          rw [hlex] at hfits
          simp only [hlex] at hscan
          exact ih hscan hfits
        | tok b | back b =>
          rw [hlex] at hfits
          simp only [hlex] at hscan
          cases hscan
          refine store_outside ?_
          rw [LexStep.overwrite, List.length_set, overwrite_length (hw.symm ▸ hfits), hw]

/-- **Only the write behind the loop is behind the array**, and it always is. -/
theorem scanWrites_inside (hscan : scanToken n l x y tk = some r) :
    (∀ u ∈ scanWrites n l tk, u.1 < tokenizeBufsize) ↔ r.full = false := by
  induction n generalizing l x y tk with
  | zero => cases hscan
  | succ n ih =>
    unfold scanToken at hscan
    unfold scanWrites
    split at hscan
    · rename_i hfull
      cases hscan
      rw [if_pos hfull]
      obtain ⟨m, hm, hle⟩ := hfull
      cases hm
      simpa using hle
    rename_i hfull
    rw [if_neg hfull]
    cases hread : GenTokenize.read tk with
    | mk more tk' =>
      rw [hread] at hscan
      cases more with
      | false =>
        cases hscan
        simp
      | true =>
        have hround := charWrites_inside (c := tk'.b.getD tk'.s 0) hfull
        rw [List.forall_mem_append, and_iff_right hround]
        cases hlex : lexChar l (tk'.b.getD tk'.s 0) with
        | go l' =>
          simp only [hlex] at hscan
          exact ih hscan
        | tok b | back b =>
          simp only [hlex] at hscan
          cases hscan
          simp

/-- **The writes of a scan are those to the slot.** -/
theorem scanned_store (hscan : scanToken n .start x y tk = some r) (hw : w.length = tokenizeBufsize) :
    store w ((0, 0) :: scanWrites n .start tk) = (r.slot w).b :=
  scanWrites_store hscan (List.length_set.trans hw) (Nat.zero_le _)

/-- **Which tokens end inside their buffer.** -/
theorem slot_terminated (hfull : r.full = true) (h0 : 0 ∉ r.b) (hw : w.length = tokenizeBufsize)
    (hb : r.b.length ≤ tokenizeBufsize) : 0 ∈ (r.slot w).b ↔ r.b.length < tokenizeBufsize := by
  have hslot : (r.slot w).b = (overwrite r.b (w.set 0 0)).set r.b.length 0 := if_pos hfull
  have hlen : (overwrite r.b (w.set 0 0)).length = tokenizeBufsize := by
    rw [overwrite_length] <;> rw [List.length_set, hw]
    exact hb
  rw [hslot]
  constructor
  · intro hmem
    by_contra hle
    have heq : r.b.length = (w.set 0 0).length := by
      rw [List.length_set, hw]
      omega
    rw [List.set_eq_of_length_le (by omega), overwrite, heq, List.drop_length, List.append_nil] at hmem
    exact h0 hmem
  · intro hlt
    exact List.mem_set (by omega) 0

/-! ## A call -/

theorem scans_tokenize (n : Nat) (tk : GenTokenize) :
    (GenTokenize.scans n tk).map Prod.snd = GenTokenize.tokenize n tk := by
  induction n generalizing tk with
  | zero => rfl
  | succ n ih =>
    unfold GenTokenize.scans GenTokenize.tokenize
    by_cases hts : tk.ts = tk.te
    · rw [if_pos hts, if_pos hts]
      rfl
    rw [if_neg hts, if_neg hts]
    cases hscan : scanToken (tk.left + 1) .start (tk.t tk.te).x (tk.t tk.te).y tk with
    | none =>
      simp only [hscan, Option.bind_eq_bind, Option.bind_none]
      rfl
    | some r =>
      simp only [hscan, Option.bind_eq_bind, Option.bind_some]
      split
      · have hrest := ih (tk.stored r)
        unfold GenTokenize.stored at hrest
        rw [← hrest, GenTokenize.stored]
        cases GenTokenize.scans n _ <;> rfl
      · rfl

end

end Bootd
