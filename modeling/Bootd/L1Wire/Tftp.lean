import Mathlib.Data.List.TakeWhile
import Bootd.Core.Memory
import Bootd.L1Wire.Bytes

/-!
# TFTP packets (`tftp.h` and the string getters of `tftp.c`)

Packet layout: opcode, then for DATA, ACK and ERROR a 16-bit number, then the
data. Replies are the bytes handed to `send`.

`tftp_get_filename`, `tftp_get_mode` and `tftp_get_errmsg` copy from the
packet into a static `char buf[512]` of their own. Each is modelled by the
byte stores it makes, in order (`Stores`), so that a store past the buffer is
visible; `cstrOf` is the C string a caller then reads from the buffer.

* `Stores.inBuf_iff`: stores that fill a buffer up to a terminating NUL at
  index `n` stay in it, and leave it terminated, exactly when `n < 512`.
* `readBuf_copyStores`: `cstrOf` is what the buffer holds up to its first NUL.
-/
namespace Bootd

/-- mirrors src/tftp.h:15-19 -/
inductive TftpOp
  | rrq | wrq | data | ack | error
  | unknown (n : Nat)
  deriving DecidableEq, Repr

def TftpOp.ofNat : Nat → TftpOp
  | 1 => .rrq
  | 2 => .wrq
  | 3 => .data
  | 4 => .ack
  | 5 => .error
  | n => .unknown n

/-! Error codes. mirrors src/tftp.h:26-33 -/

def tftpEUndef : Nat := 0
def tftpENoent : Nat := 1
def tftpEAccess : Nat := 2
def tftpEBadsid : Nat := 5

/-- `sizeof(repls->data)`. mirrors src/tftp.h:42-46 -/
def tftpBlock : Nat := 512

/-- `ntohs(req->op)`. -/
def Pkt.tftpOp (p : Pkt) : TftpOp := .ofNat (p.u16 0)

/-- `ntohs(reqs->n)`. -/
def Pkt.tftpN (p : Pkt) : Nat := p.u16 2

/-- `req->data[i]`. -/
def Pkt.tftpData (p : Pkt) (i : Nat) : UInt8 := p.mem (2 + i)

/-! ## Replies -/

/-- A reply buffer with opcode DATA, block number `n` and `size` bytes read
into `repls->data`. -/
def tftpDataBuf (n : Nat) (data : List UInt8) : List UInt8 := be16 3 ++ be16 n ++ data

/-- The packet of `tftp_send_error`: `5 + strlen(msg)` bytes of the struct
(messages shorter than `repl.data`).
mirrors src/tftp.c:332-348 -/
def tftpErrorPkt (err : Nat) (msg : CStr) : List UInt8 := be16 5 ++ be16 err ++ msg ++ [0]

/-- The opcode of a packet on the wire. -/
def opOf : List UInt8 → Option TftpOp
  | a :: b :: _ => some (.ofNat (a.toNat * 256 + b.toNat))
  | _ => none

theorem opOf_be16 (n : Nat) (bs : List UInt8) : opOf (be16 n ++ bs) = some (.ofNat (n % 65536)) := by
  rw [← be16_val]; rfl

@[simp] theorem opOf_error (err : Nat) (msg : CStr) : opOf (tftpErrorPkt err msg) = some .error := by
  rw [tftpErrorPkt, List.append_assoc, List.append_assoc, opOf_be16]; rfl

@[simp] theorem opOf_data (n : Nat) (d : List UInt8) (k : Nat) (h : 2 ≤ k) :
    opOf ((tftpDataBuf n d).take k) = some .data := by
  rw [tftpDataBuf, List.append_assoc, List.take_append, List.take_of_length_le (by simpa using h),
    opOf_be16]
  rfl

/-- The data of a DATA packet, as the receiver takes it off the wire. -/
def dataOf (bs : List UInt8) : Option (List UInt8) :=
  if opOf bs = some .data then some (bs.drop 4) else none

@[simp] theorem dataOf_error (err : Nat) (msg : CStr) : dataOf (tftpErrorPkt err msg) = none := by
  simp [dataOf]

@[simp] theorem dataOf_data (n : Nat) (d : List UInt8) : dataOf (tftpDataBuf n d) = some d := by
  have h := opOf_data n d (tftpDataBuf n d).length (by simp [tftpDataBuf])
  rw [List.take_length] at h
  rw [dataOf, if_pos h]
  rfl

/-- The three bytes sent after a failed read carry no data. -/
theorem dataOf_short (n : Nat) : dataOf ((tftpDataBuf n []).take 3) = some [] := by
  rw [dataOf, if_pos (opOf_data n [] 3 (by omega))]
  rfl

/-! ## Static buffers -/

/-- Byte stores `buf[i] = b`, in program order. -/
abbrev Stores := List (Nat × UInt8)

/-- The memory after the stores. -/
def Stores.apply (st : Stores) (b : Nat → UInt8) : Nat → UInt8 :=
  st.foldl (fun b s j => if j = s.1 then s.2 else b j) b

/-- `sizeof(buf)` of the three static buffers. -/
def tftpBufSize : Nat := 512

/-- Every store is inside the buffer, and the buffer ends up with a NUL in it,
whatever it held before. -/
structure Stores.InBuf (st : Stores) : Prop where
  bound : ∀ s ∈ st, s.1 < tftpBufSize
  nul : ∀ b, ∃ i < tftpBufSize, st.apply b i = 0

@[simp] theorem Stores.apply_append (st st' : Stores) (b : Nat → UInt8) :
    Stores.apply (st ++ st') b = Stores.apply st' (Stores.apply st b) := by
  simp [Stores.apply]

theorem Stores.inBuf_iff {st : Stores} {n : Nat} (h : ∀ s ∈ st, s.1 < n) :
    Stores.InBuf (st ++ [(n, 0)]) ↔ n < tftpBufSize := by
  constructor
  · intro hb; exact hb.bound (n, 0) (by simp)
  · intro hn
    refine ⟨fun s hs => ?_, fun b => ⟨n, hn, by simp [Stores.apply]⟩⟩
    rcases List.mem_append.mp hs with hs | hs
    · exact Nat.lt_trans (h s hs) hn
    · simp only [List.mem_singleton] at hs; subst hs; exact hn

/-- The C string a caller reads back: the bytes stored, up to the first NUL. -/
def cstrOf (st : Stores) : CStr := (st.map Prod.snd).takeWhile (· ≠ 0)

/-- `for (i = 0; i < n; i++) buf[i] = d[i]; buf[i] = 0;` -/
def copyStores (d : Nat → UInt8) (n : Nat) : Stores :=
  (List.range n).map (fun i => (i, d i)) ++ [(n, 0)]

theorem copyStores_inBuf (d : Nat → UInt8) (n : Nat) :
    (copyStores d n).InBuf ↔ n < tftpBufSize :=
  Stores.inBuf_iff (by simp)

/-- The bytes and their NUL, from the first place on. -/
theorem copyStores_along (d : Nat → UInt8) (n : Nat) :
    copyStores d n = Core.Memory.along 0 ((List.range n).map d ++ [0]) := by
  rw [Core.Memory.along_append, List.length_map, List.length_range, Nat.zero_add, copyStores]
  congr 1
  induction n with
  | zero => rfl
  | succ n ih =>
    rw [List.range_succ, List.map_append, List.map_append, Core.Memory.along_append, ih, List.length_map,
      List.length_range, Nat.zero_add]
    rfl

theorem copyStores_apply (d : Nat → UInt8) (n : Nat) (b : Nat → UInt8) (i : Nat) :
    (copyStores d n).apply b i = if i < n then d i else if i = n then 0 else b i := by
  have hlen : ((List.range n).map d).length = n := by simp
  rw [copyStores_along]
  refine Core.Memory.after_along.trans ?_
  rw [if_pos (Nat.zero_le i), Nat.sub_zero, List.getElem?_append, hlen]
  rcases Nat.lt_trichotomy i n with hi | rfl | hi
  · simp [hi]
  · simp
  · rw [if_neg (by omega), if_neg (by omega), if_neg (by omega), List.getElem?_eq_none (by simp; omega)]
    rfl

/-- Reading the buffer as a C string. -/
def readBuf (b : Nat → UInt8) : CStr := ((List.range tftpBufSize).map b).takeWhile (· ≠ 0)

/-- As long as the copy stays in the buffer, the caller reads `cstrOf`. -/
theorem readBuf_copyStores (d : Nat → UInt8) (n : Nat) (b : Nat → UInt8) (h : n < tftpBufSize) :
    readBuf ((copyStores d n).apply b) = cstrOf (copyStores d n) := by
  have hm : (copyStores d n).map Prod.snd = (List.range (n + 1)).map ((copyStores d n).apply b) := by
    rw [List.range_succ, List.map_append, copyStores_along, Core.Memory.map_along, ← copyStores_along]
    congr 1
    · refine List.map_congr_left fun i hi => ?_
      rw [copyStores_apply, if_pos (List.mem_range.mp hi)]
    · rw [List.map_singleton, copyStores_apply]
      simp
  obtain ⟨k, hk⟩ : ∃ k, tftpBufSize = n + 1 + k := ⟨tftpBufSize - (n + 1), by omega⟩
  unfold readBuf cstrOf
  rw [hm, hk, List.range_add, List.map_append, List.takeWhile_append, if_neg]
  -- the copied part contains its terminating NUL, so the rest is not read
  intro he
  have hall := List.takeWhile_eq_self_iff.mp
    ((List.takeWhile_prefix _).eq_of_length he)
  have := hall 0 (List.mem_map.mpr ⟨n, by simp, by rw [copyStores_apply]; simp⟩)
  simp at this

/-! ## The getters -/

/-- mirrors src/tftp.c:253-273 -/
def tftpGetFilename (p : Pkt) : Option Stores :=
  match p.tftpOp with
  | .rrq | .wrq => some (copyStores p.tftpData (p.len - 2))
  | _ => none

/-- The loop of `tftp_get_mode` at index `i` with `n` bytes to go; `j` is the
write index, `none` for -1.
mirrors src/tftp.c:287-306 -/
def modeLoop (d : Nat → UInt8) : Nat → Nat → Option Nat → Option Stores
  | _, 0, none => none
  | _, 0, some j => some [(j, 0)]
  | i, n + 1, j =>
    if d i = 0 then
      match j with
      | none => modeLoop d (i + 1) n (some 0)
      | some j => some [(j, 0)]
    else
      match j with
      | none => modeLoop d (i + 1) n none
      | some j => (modeLoop d (i + 1) n (some (j + 1))).map ((j, d i) :: ·)

/-- mirrors src/tftp.c:275-311 -/
def tftpGetMode (p : Pkt) : Option Stores :=
  match p.tftpOp with
  | .rrq | .wrq => modeLoop p.tftpData 0 (p.len - 2) none
  | _ => none

/-- mirrors src/tftp.c:313-330 -/
def tftpGetErrmsg (p : Pkt) : Option Stores :=
  match p.tftpOp with
  | .error => some (copyStores (fun i => p.tftpData (i + 2)) (p.len - 4))
  | _ => none

/-- Once past the first NUL, the mode loop stores at `j, j+1, …` and ends with
the terminating NUL at most `n` further on. -/
theorem modeLoop_some (d : Nat → UInt8) : ∀ (n i j : Nat), ∃ st k,
    modeLoop d i n (some j) = some (st ++ [(k, 0)]) ∧ j ≤ k ∧ k ≤ j + n ∧ ∀ s ∈ st, s.1 < k
  | 0, i, j => ⟨[], j, rfl, Nat.le_refl _, by omega, by simp⟩
  | n + 1, i, j => by
    by_cases h : d i = 0
    · exact ⟨[], j, by simp [modeLoop, h], Nat.le_refl _, by omega, by simp⟩
    · obtain ⟨st, k, h1, h2, h3, h4⟩ := modeLoop_some d n (i + 1) (j + 1)
      refine ⟨(j, d i) :: st, k, by simp [modeLoop, h, h1], by omega, by omega, fun s hs => ?_⟩
      rcases List.mem_cons.mp hs with rfl | hs
      · exact h2
      · exact h4 s hs

/-- Before the first NUL nothing is stored; if it comes, the rest of the loop
has at most `n - 1` bytes to go. -/
theorem modeLoop_none (d : Nat → UInt8) : ∀ (n i : Nat) (st : Stores),
    modeLoop d i n none = some st → ∃ pre k, st = pre ++ [(k, 0)] ∧ k < n ∧ ∀ s ∈ pre, s.1 < k
  | 0, i, st, h => by simp [modeLoop] at h
  | n + 1, i, st, h => by
    simp only [modeLoop] at h
    split at h
    · obtain ⟨pre, k, h1, -, h2, h3⟩ := modeLoop_some d n (i + 1) 0
      rw [h1] at h; cases h
      exact ⟨pre, k, rfl, by omega, h3⟩
    · obtain ⟨pre, k, h1, h2, h3⟩ := modeLoop_none d n (i + 1) st h
      exact ⟨pre, k, h1, by omega, h3⟩

/-! ## The packets whose texts fit -/

/-- The getters of `tftp_log_msgpacket` stay in their buffers. -/
def Pkt.LogFits (p : Pkt) : Prop :=
  (p.tftpOp = .rrq ∨ p.tftpOp = .wrq → p.len ≤ 513) ∧ (p.tftpOp = .error → p.len ≤ 515)

instance (p : Pkt) : Decidable p.LogFits := inferInstanceAs (Decidable (_ ∧ _))

theorem filename_inBuf_iff (p : Pkt) : (∀ st, tftpGetFilename p = some st → st.InBuf) ↔
    (p.tftpOp = .rrq ∨ p.tftpOp = .wrq → p.len ≤ 513) := by
  have key : (copyStores p.tftpData (p.len - 2)).InBuf ↔ p.len ≤ 513 := by
    rw [copyStores_inBuf, tftpBufSize]; omega
  unfold tftpGetFilename
  split <;> rename_i hop <;> simp_all

theorem errmsg_inBuf_iff (p : Pkt) : (∀ st, tftpGetErrmsg p = some st → st.InBuf) ↔
    (p.tftpOp = .error → p.len ≤ 515) := by
  have key : (copyStores (fun i => p.tftpData (i + 2)) (p.len - 4)).InBuf ↔ p.len ≤ 515 := by
    rw [copyStores_inBuf, tftpBufSize]; omega
  unfold tftpGetErrmsg
  split <;> rename_i hop <;> simp_all

/-- The mode is at least two bytes shorter than the packet, so it fits whenever
the file name copy does. -/
theorem mode_inBuf (p : Pkt) (h : p.tftpOp = .rrq ∨ p.tftpOp = .wrq → p.len ≤ 513) (st : Stores)
    (hs : tftpGetMode p = some st) : st.InBuf := by
  unfold tftpGetMode at hs
  have hop : p.tftpOp = .rrq ∨ p.tftpOp = .wrq := by
    split at hs <;> first | exact .inl ‹_› | exact .inr ‹_› | cases hs
  have hlen := h hop
  have hs : modeLoop p.tftpData 0 (p.len - 2) none = some st := by
    rcases hop with e | e <;> simpa [e] using hs
  obtain ⟨pre, k, rfl, hk, hpre⟩ := modeLoop_none _ _ _ _ hs
  rw [Stores.inBuf_iff hpre, tftpBufSize]; omega

end Bootd
