import Bootd.Config.Tokenize

/-!
# `gen_tokenize_ahead` sees one token too many

`max` is the number of tokens in the ring, `te - ts`; where the ring has wrapped
around, `TOKENIZE_LOOKAHEAD` is added to it, one less than the number of slots.
It is compared with `n > max`, so that `n = max` passes (src/tokenize.c:210-216).
In a ring that has wrapped the two slips cancel. Otherwise, once the end of the
file is reached, the slot behind the last token is taken for one.

Counterexample: behind the only token of a file there is another one
(`token_invented`).

`lookahead_iff`: the calls of a run return what reading on would, unless one of
them looks exactly at the end of a ring that has not wrapped.
-/
namespace Bootd

/-- A call, with the size of the buffer and the buffer. -/
inductive LookCall
  | next (l : Nat) (w : Buf)
  | ahead (n : Nat) (l : Nat) (w : Buf)

def LookCall.run : LookCall → GenTokenize → Option (Bool × Buf × GenTokenize)
  | .next l w => GenTokenize.next l w
  | .ahead n l w => GenTokenize.ahead n l w

/-- What the calls return, and what is in their buffers. -/
def lookResults : List LookCall → GenTokenize → Option (List (Bool × Buf))
  | [], _ => some []
  | c :: cs, tk => do
    let (ret, w, tk) ← c.run tk
    let rs ← lookResults cs tk
    return (ret, w) :: rs

/-! ## Reading on -/

/-- Token `i` in the buffer, or nothing. -/
def showToken (ts : List CStr) (i l : Nat) (w : Buf) : Bool × Buf :=
  match ts[i]? with
  | some tok => (true, strncpy w tok l)
  | none => (false, w)

/-- What reading on would return: `k` of the tokens `ts` have been taken. -/
def readOn (ts : List CStr) : Nat → List LookCall → List (Bool × Buf)
  | _, [] => []
  | k, .next l w :: cs => showToken ts k l w :: readOn ts (if k < ts.length then k + 1 else k) cs
  | k, .ahead n l w :: cs => showToken ts (k + n) l w :: readOn ts k cs

/-- No call looks at the token behind the last one, unless none is left, or the slot for it is one that comes
before the next token's in the ring. -/
def WithinRing (total : Nat) : Nat → List LookCall → Prop
  | _, [] => True
  | k, .next _ _ :: cs => WithinRing total (if k < total then k + 1 else k) cs
  | k, .ahead n _ _ :: cs => (k + n = total → n = 0 ∨ 5 ≤ k % 5 + n) ∧ WithinRing total k cs

/-! ## Where the ring stands -/

/-- `k` tokens have been taken from the ring. -/
structure GenTokenize.Taken (tk : GenTokenize) (ts : List CStr) (k : Nat) : Prop where
  good : tk.Good
  pending : tk.pending = ts.drop k
  empty : tk.ts = -1 → k % 5 = 0 ∨ tk.input = []
  slot : tk.ts ≠ -1 → tk.ts = (k % 5 : Nat)

section
variable {tk tk' : GenTokenize} {ts : List CStr} {n k l : Nat} {w : Buf}

/-- Filling the ring does not move `ts`, except from -1 to 0. -/
theorem tokenize_ts (h : tk.Good) (hr : GenTokenize.tokenize n tk = some tk') :
    (tk.ts ≠ -1 → tk'.ts = tk.ts) ∧ (tk.ts = -1 → tk'.ts = -1 ∨ tk'.ts = 0) := by
  induction n generalizing tk with
  | zero => cases hr
  | succ n ih =>
    unfold GenTokenize.tokenize at hr
    split at hr
    · cases hr
      exact ⟨fun _ => rfl, .inl⟩
    · obtain ⟨r, hscan, -, hrB, hring, -⟩ := scanToken_spec (n := tk.left + 1) (l := .start)
        (x := (tk.t tk.te).x) (y := (tk.t tk.te).y) h.bounded (by rw [left_eq h.bounded]; omega)
      simp only [hscan, Option.bind_eq_bind, Option.bind_some] at hr
      split at hr
      · have hstep := ih (stored_good h hrB) hr
        by_cases hts : tk.ts = -1
        · have h0 : (tk.stored r).ts = 0 := if_pos hts
          have hne : (tk.stored r).ts ≠ -1 := by rw [h0]; decide
          exact ⟨fun h => absurd hts h, fun _ => .inr ((hstep.1 hne).trans h0)⟩
        · have heq : (tk.stored r).ts = tk.ts := if_neg hts
          exact ⟨fun _ => (hstep.1 (heq ▸ hts)).trans heq, fun h => absurd h hts⟩
      · cases hr
        exact ⟨fun _ => hring.1, fun h => .inl (hring.1.trans h)⟩

/-- What is left of a filled ring. -/
theorem filled_length (h : tk.Good) (hfill : tk.Filled) :
    tk.count = min 5 tk.pending.length := by
  have hqueue : tk.queue.length = tk.count := by
    rw [GenTokenize.queue, List.length_map, Core.Ring.items_length]
  have hle := count_le h
  by_cases hts : tk.ts = tk.te
  · have hcount : tk.count = 5 := by
      have hte := h.te
      unfold GenTokenize.count
      rw [if_neg (by omega), if_pos (by omega)]
      omega
    unfold GenTokenize.pending
    rw [List.length_append, hqueue]
    omega
  · rw [pending_filled hfill hts, hqueue]
    omega

/-- Filling the ring. -/
theorem GenTokenize.Taken.fill (h : tk.Taken ts k) : ∃ tk', GenTokenize.tokenize tokenizeFuel tk = some tk' ∧
    tk'.Taken ts k ∧ tk'.Filled := by
  obtain ⟨tk', htk', hg, hfill, hp⟩ := tokenize_spec h.good (show 6 ≤ tokenizeFuel + tk.count by
    unfold tokenizeFuel tokenizeLookahead; omega)
  obtain ⟨hkeep, hnew⟩ := tokenize_ts h.good htk'
  refine ⟨tk', htk', ⟨hg, hp.trans h.pending, fun hts => ?_, fun hts => ?_⟩, hfill⟩
  · refine .inr (hfill.resolve_left fun heq => ?_)
    have hte := hg.te
    omega
  · by_cases hts₀ : tk.ts = -1
    · have h0 := (hnew hts₀).resolve_left hts
      rcases h.empty hts₀ with hk | hin
      · rw [h0, hk]; rfl
      · -- nothing was left to read, so the ring is still empty
        have hnone : tk'.count = 0 := by
          rw [filled_length hg hfill, hp, GenTokenize.pending, hin, tokens_nil, GenTokenize.queue,
            (count_empty h.good).mp hts₀]
          rfl
        exact absurd ((count_empty hg).mpr hnone) hts
    · rw [hkeep hts₀]
      exact h.slot hts₀

/-- Which `n` pass the test in a ring that holds a token. -/
theorem ahead_passes (h : tk.Good) (hts : tk.ts ≠ -1) (hn : n ≤ 4) :
    ((n : Int) > if (tk.te : Int) - tk.ts ≤ 0 then tk.te - tk.ts + tokenizeLookahead else tk.te - tk.ts) ↔
      tk.count ≤ n ∧ (n = tk.count → 5 ≤ tk.ts.toNat + n) := by
  have hte := h.te
  obtain ⟨h0, h5⟩ := h.ts.resolve_left hts
  unfold GenTokenize.count tokenizeLookahead
  rw [if_neg hts]
  split <;> split <;> omega

/-- A token in the ring. -/
theorem pending_slot (hn : n < tk.count) : tk.pending[n]? = some (strOf (tk.t ((tk.ts.toNat + n) % 5)).b) := by
  have hlen : n < tk.queue.length := by
    rw [GenTokenize.queue, List.length_map, Core.Ring.items_length]
    exact hn
  rw [GenTokenize.pending, List.getElem?_append_left hlen]
  simp [GenTokenize.queue, Core.Ring.items, hn]

/-- `gen_tokenize_ahead` returns what reading on would, unless it looks behind the last token of a ring that has
not wrapped. -/
theorem GenTokenize.Taken.ahead (h : tk.Taken ts k) (hk : k ≤ ts.length) (hn : n ≤ 4) (l : Nat) (w : Buf) :
    ∃ tk' r, GenTokenize.ahead n l w tk = some (r.1, r.2, tk') ∧ tk'.Taken ts k ∧ tk'.Filled ∧
      (r = showToken ts (k + n) l w ↔ (k + n = ts.length → n = 0 ∨ 5 ≤ k % 5 + n)) := by
  obtain ⟨tk', htk', ht, hfill⟩ := h.fill
  have hlen := filled_length ht.good hfill
  have hget : ts[k + n]? = tk'.pending[n]? := by rw [ht.pending, List.getElem?_drop]
  rw [ht.pending, List.length_drop] at hlen
  refine ⟨tk', ?_⟩
  unfold GenTokenize.ahead
  simp only [htk', Option.bind_eq_bind, Option.bind_some]
  by_cases hts : tk'.ts = -1
  · have h0 := (count_empty ht.good).mp hts
    have hnone : ts[k + n]? = none := List.getElem?_eq_none (by omega)
    refine ⟨(false, w), if_pos hts, ht, hfill, iff_of_true ?_ fun _ => .inl (by omega)⟩
    rw [showToken, hnone]
  · have hpass := ahead_passes ht.good hts hn
    have hslot : tk'.ts.toNat = k % 5 := by rw [ht.slot hts, Int.toNat_natCast]
    have hpos : tk'.count ≠ 0 := fun h0 => hts ((count_empty ht.good).mpr h0)
    rw [hslot] at hpass
    rw [if_neg hts]
    by_cases hgt : tk'.count ≤ n ∧ (n = tk'.count → 5 ≤ k % 5 + n)
    · have hnone : ts[k + n]? = none := List.getElem?_eq_none (by omega)
      refine ⟨(false, w), if_pos (hpass.mpr hgt), ht, hfill, iff_of_true ?_ fun _ => .inr (hgt.2 (by omega))⟩
      rw [showToken, hnone]
    · refine ⟨(true, strncpy w (strOf (tk'.t (((n : Int) + tk'.ts) % (tokenizeLookahead + 1)).toNat).b) l),
        if_neg (mt hpass.mp hgt), ht, hfill, ?_⟩
      by_cases hlt : n < tk'.count
      · refine iff_of_true ?_ fun _ => absurd hlt (by omega)
        rw [showToken, hget, pending_slot hlt]
        have hmod : (((n : Int) + tk'.ts) % (tokenizeLookahead + 1)).toNat = (tk'.ts.toNat + n) % 5 := by
          rw [ht.slot hts, Int.toNat_natCast, tokenizeLookahead]
          omega
        rw [hmod]
      · have hnone : ts[k + n]? = none := List.getElem?_eq_none (by omega)
        refine iff_of_false ?_ fun h => ?_
        · rw [showToken, hnone]
          simp
        · have h := h (by omega)
          omega

/-- `gen_tokenize_next` returns the next token. -/
theorem GenTokenize.Taken.next (h : tk.Taken ts k) (hk : k ≤ ts.length) (l : Nat) (w : Buf) :
    ∃ tk', GenTokenize.next l w tk = some ((showToken ts k l w).1, (showToken ts k l w).2, tk') ∧
      tk'.Taken ts (if k < ts.length then k + 1 else k) := by
  obtain ⟨tk', r, hrun, ht, hfill, hr⟩ := h.ahead (n := 0) hk (Nat.zero_le 4) l w
  have hr := hr.mpr fun _ => .inl rfl
  rw [Nat.add_zero] at hr
  rw [hr] at hrun
  unfold GenTokenize.next
  have hzero : GenTokenize.ahead 0 l w tk = some ((showToken ts k l w).1, (showToken ts k l w).2, tk') := hrun
  simp only [hzero, Option.bind_eq_bind, Option.bind_some]
  by_cases hlt : k < ts.length
  · have htrue : (showToken ts k l w).1 = true := by rw [showToken, List.getElem?_eq_getElem hlt]
    have hlen := filled_length ht.good hfill
    rw [ht.pending, List.length_drop] at hlen
    have hts : tk'.ts ≠ -1 := fun hts => by
      have h0 := (count_empty ht.good).mp hts
      omega
    rw [if_pos hlt, htrue]
    refine ⟨tk'.popped, rfl, popped_good ht.good hfill hts, ?_, fun hpop => .inr ?_, fun hpop => ?_⟩
    · rw [popped_pending ht.good hts, ht.pending, List.tail_drop]
    · refine hfill.resolve_left fun heq => ?_
      have hcount := popped_count ht.good hts
      have hz : tk'.popped.count = 0 := if_pos hpop
      have hte := ht.good.te
      rw [hz, GenTokenize.count, if_neg hts, if_pos (by omega)] at hcount
      omega
    · have hslot : tk'.ts.toNat = k % 5 := by rw [ht.slot hts, Int.toNat_natCast]
      have hpopped := popped_ts ht.good hts
      split at hpopped
      · exact absurd hpopped hpop
      · rw [hpopped, hslot, Core.Ring.succ_eq (Nat.mod_lt _ (by decide)), Nat.mod_add_mod]
  · have hfalse : (showToken ts k l w).1 = false := by
      rw [showToken, List.getElem?_eq_none (Nat.not_lt.mp hlt)]
    rw [if_neg hlt, hfalse]
    exact ⟨tk', rfl, ht⟩

/-- A run of calls. -/
theorem lookResults_iff (calls : List LookCall) (h : tk.Taken ts k) (hk : k ≤ ts.length)
    (hn : ∀ n l w, LookCall.ahead n l w ∈ calls → n ≤ 4) :
    ∃ rs, lookResults calls tk = some rs ∧ (rs = readOn ts k calls ↔ WithinRing ts.length k calls) := by
  induction calls generalizing tk k with
  | nil => exact ⟨[], rfl, by simp [readOn, WithinRing]⟩
  | cons c calls ih =>
    have hn' : ∀ n l w, LookCall.ahead n l w ∈ calls → n ≤ 4 := fun n l w hc =>
      hn n l w (List.mem_cons_of_mem _ hc)
    cases c with
    | next l w =>
      obtain ⟨tk', hrun, ht⟩ := h.next hk l w
      obtain ⟨rs, hrs, hiff⟩ := ih ht (by split <;> omega) hn'
      refine ⟨showToken ts k l w :: rs, ?_, ?_⟩
      · simp only [lookResults, LookCall.run, hrun, hrs, Option.bind_eq_bind, Option.bind_some]
        rfl
      · rw [readOn, WithinRing, List.cons_inj_right, hiff]
    | ahead n l w =>
      obtain ⟨tk', r, hrun, ht, -, hr⟩ := h.ahead hk (hn n l w List.mem_cons_self) l w
      obtain ⟨rs, hrs, hiff⟩ := ih ht hk hn'
      refine ⟨r :: rs, ?_, ?_⟩
      · simp only [lookResults, LookCall.run, hrun, hrs, Option.bind_eq_bind, Option.bind_some]
        rfl
      · rw [readOn, WithinRing, List.cons.injEq, hr, hiff]

end

/-- **When looking ahead agrees with reading on**: for every file, in whatever pieces, and every run of calls. -/
theorem lookahead_iff (fname : CStr) (fd : List Chunk) (calls : List LookCall)
    (hn : ∀ n l w, LookCall.ahead n l w ∈ calls → n ≤ tokenizeLookahead) :
    let ts := tokens (some tokenizeBufsize) (fd.map Subtype.val).flatten
    lookResults calls (.new fname fd) = some (readOn ts 0 calls) ↔ WithinRing ts.length 0 calls := by
  intro ts
  have hnew : (GenTokenize.new fname fd).Taken ts 0 :=
    ⟨new_good fname fd, new_pending fname fd, fun _ => .inl rfl, fun h => absurd rfl h⟩
  obtain ⟨rs, hrs, hiff⟩ := lookResults_iff calls hnew (Nat.zero_le _) hn
  rw [hrs, Option.some_inj, hiff]

/-- Two tokens are looked at in turn. -/
theorem lookahead_two : lookResults [.ahead 1 256 [], .next 256 [], .ahead 0 256 []]
    (.new (cstr "bootd.conf") [⟨cstr "a b ", by decide⟩]) =
      some (readOn [cstr "a", cstr "b"] 0 [.ahead 1 256 [], .next 256 [], .ahead 0 256 []]) :=
  (lookahead_iff (cstr "bootd.conf") [⟨cstr "a b ", by decide⟩] _ (by
    intro n l w hmem
    simp only [List.mem_cons, LookCall.ahead.injEq, reduceCtorEq, false_or, List.not_mem_nil, or_false] at hmem
    rcases hmem with ⟨rfl, -⟩ | ⟨rfl, -⟩ <;> decide)).mpr ⟨by decide, by decide, trivial⟩

/-- **Counterexample**: one token, and `gen_tokenize_ahead(1)` returns 1. -/
theorem token_invented : ¬ ∀ (fname : CStr) (fd : List Chunk) (calls : List LookCall),
    (∀ n l w, LookCall.ahead n l w ∈ calls → n ≤ tokenizeLookahead) →
      lookResults calls (.new fname fd) =
        some (readOn (tokens (some tokenizeBufsize) (fd.map Subtype.val).flatten) 0 calls) := by
  intro hall
  let fd : List Chunk := [⟨cstr "; ", by decide⟩]
  let calls : List LookCall := [.ahead 1 256 []]
  have hn : ∀ n l w, LookCall.ahead n l w ∈ calls → n ≤ tokenizeLookahead := fun n l w hmem => by
    cases List.mem_singleton.mp hmem
    decide
  have hnew : (GenTokenize.new [] fd).Taken [tokSemi] 0 :=
    ⟨new_good [] fd, (new_pending [] fd).trans (by decide), fun _ => .inl rfl, fun h => absurd rfl h⟩
  obtain ⟨rs, hrs, hiff⟩ := lookResults_iff calls hnew (Nat.zero_le _) hn
  have h := hall [] fd calls hn
  rw [hrs, Option.some_inj, show tokens _ _ = [tokSemi] by decide, hiff] at h
  exact absurd (h.1 rfl) (by decide)

end Bootd
