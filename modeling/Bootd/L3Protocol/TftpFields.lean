import Bootd.Config.Source
import Bootd.L1Wire.Received
import Bootd.L1Wire.Tftp

/-!
# The string fields of TFTP packets (`tftp.c:253-351`)

A request is the opcode, a file name, a NUL, a mode, a NUL, and options; an error packet is
what `tftp_send_error` puts together. The three getters read back what was put there, as
long as a request has at most 513 bytes and a message at most 510: then the copies with
their NUL fill at most the 512 bytes of the static buffers.

* `getFilename_request`, `getMode_request`, `getErrmsg_error`: one getter each.
* `tftp_fields`: all three.
-/
namespace Bootd

/-- A read or write request, with the options behind it. -/
def tftpRequest (op : Nat) (name mode : CStr) (opts : List UInt8) : List UInt8 :=
  be16 op ++ (name ++ 0 :: (mode ++ 0 :: opts))

/-- The bytes handed to `send`: `5 + i` of the struct on the stack, in which `strncpy`
stored the message. mirrors src/tftp.c:332-348 -/
def tftpErrorRepl (stack : Buf) (err : Nat) (msg : CStr) : List UInt8 :=
  (be16 5 ++ be16 err ++ strncpy stack msg tftpBlock).take (5 + msg.length)

/-- The stores stay in the static buffer, which then holds the string `s`. -/
def Stores.Yields (st : Stores) (s : CStr) : Prop := st.InBuf ∧ ∀ b, readBuf (st.apply b) = s

section
variable {p : Pkt} {bs name mode msg s : CStr} {opts rest : List UInt8} {d : Nat → UInt8} {n op err : Nat}
  {stack : Buf}

/-- A message of at most 510 bytes is stored as it is, with its NUL. -/
theorem tftpErrorRepl_eq (h : msg.length + 2 ≤ tftpBlock) (stack : Buf) (err : Nat) :
    tftpErrorRepl stack err msg = tftpErrorPkt err msg := by
  have hcopy : strncpy stack msg tftpBlock =
      msg ++ [0] ++ stack.drop (min (msg.length + 1) (tftpBlock - 1)) := by
    unfold strncpy
    rw [if_neg (by omega), List.take_of_length_le (by rw [List.length_append, List.length_singleton]; omega)]
  have hlen : (be16 5 ++ be16 err ++ (msg ++ [0])).length = 5 + msg.length := by
    simp
    omega
  unfold tftpErrorRepl tftpErrorPkt
  rw [hcopy, ← List.append_assoc, List.take_left' hlen, List.append_assoc _ msg]

/-! ## What a packet holds -/

theorem Pkt.Holds.u16_be16 (hp : p.Holds (be16 op ++ rest)) (hop : op < 65536) : p.u16 0 = op := by
  have h0 : p.mem 0 = UInt8.ofNat (op / 256) := hp.mem 0 (by simp)
  have h1 : p.mem 1 = UInt8.ofNat op := hp.mem 1 (by simp; omega)
  unfold Pkt.u16
  rw [h0, h1, be16_val, Nat.mod_eq_of_lt hop]

/-- The bytes behind the first two. -/
theorem Pkt.Holds.behind (hp : p.Holds bs) (o : Nat) : p.bytes o (bs.length - o) = bs.drop o := by
  obtain ⟨k, hk, hb⟩ := hp.bytes o (bs.length - o)
  have hall : received bs o (bs.length - o) = bs.drop o := by
    unfold received
    exact List.take_of_length_le (by rw [List.length_drop])
  have hzero : k = 0 := by
    rw [hall, List.length_drop] at hk
    omega
  subst hzero
  rw [hb, hall, Pkt.bytes, List.range_zero, List.map_nil, List.append_nil]

/-- A string up to its NUL. -/
theorem takeWhile_nul (h : 0 ∉ s) (rest : List UInt8) : (s ++ 0 :: rest).takeWhile (· ≠ 0) = s := by
  have hne : ∀ b ∈ s, (decide (b ≠ 0)) = true := fun b hb => by
    simp only [ne_eq, decide_not, Bool.not_eq_true', decide_eq_false_iff_not]
    exact fun h0 => h (h0 ▸ hb)
  rw [List.takeWhile_append_of_pos hne, List.takeWhile_cons_of_neg (by simp), List.append_nil]

/-! ## Copies -/

theorem copyStores_yields (hn : n < tftpBufSize) (hs : ((List.range n).map d).takeWhile (· ≠ 0) = s) :
    (copyStores d n).Yields s := by
  refine ⟨(copyStores_inBuf d n).mpr hn, fun b => ?_⟩
  rw [readBuf_copyStores d n b hn]
  unfold cstrOf copyStores
  rw [List.map_append, List.map_map, List.map_singleton]
  show ((List.range n).map d ++ [0]).takeWhile (· ≠ 0) = s
  rw [List.takeWhile_append]
  split_ifs with hall
  · have hself := (List.takeWhile_prefix _).eq_of_length hall
    rw [hself] at hs
    rw [hs, List.takeWhile_cons_of_neg (by simp), List.append_nil]
  · exact hs

/-- The bytes from `i` on, and those behind the first. -/
theorem bytes_cons {b : UInt8} {i : Nat} (h : (List.range (n + 1)).map (fun k => d (i + k)) = b :: bs) :
    d i = b ∧ (List.range n).map (fun k => d (i + 1 + k)) = bs := by
  rw [List.range_succ_eq_map, List.map_cons, List.map_map] at h
  obtain ⟨hb, hrest⟩ := List.cons.inj h
  refine ⟨hb, hrest ▸ List.map_congr_left fun k _ => ?_⟩
  show d (i + 1 + k) = d (i + (k + 1))
  rw [Nat.add_assoc, Nat.add_comm 1]

/-- The stores of the mode loop behind the first NUL. -/
theorem modeLoop_copies (h : 0 ∉ mode) (i j : Nat)
    (hd : (List.range n).map (fun k => d (i + k)) = mode ++ 0 :: rest) : modeLoop d i n (some j) =
      some ((List.range mode.length).map (fun k => (j + k, mode.getD k 0)) ++ [(j + mode.length, 0)]) := by
  induction mode generalizing n i j with
  | nil =>
    cases n with
    | zero => cases hd
    | succ n =>
      obtain ⟨h0, -⟩ := bytes_cons hd
      unfold modeLoop
      rw [if_pos h0]
      rfl
  | cons b mode ih =>
    cases n with
    | zero => cases hd
    | succ n =>
      obtain ⟨hb, hrest⟩ := bytes_cons hd
      have hne : d i ≠ 0 := fun h0 => h (by rw [← h0, hb]; exact List.mem_cons_self)
      unfold modeLoop
      rw [if_neg hne]
      dsimp only
      rw [ih (fun hm => h (List.mem_cons_of_mem b hm)) (i + 1) (j + 1) hrest]
      rw [List.length_cons, List.range_succ_eq_map, List.map_cons, List.map_map, hb]
      simp [Function.comp_def, Nat.add_assoc, Nat.add_comm 1]

theorem modeLoop_skips (h : 0 ∉ name) (i : Nat)
    (hd : (List.range n).map (fun k => d (i + k)) = name ++ 0 :: (mode ++ 0 :: rest)) (hm : 0 ∉ mode) :
    modeLoop d i n none = some (copyStores (fun k => mode.getD k 0) mode.length) := by
  induction name generalizing n i with
  | nil =>
    cases n with
    | zero => cases hd
    | succ n =>
      obtain ⟨h0, hrest⟩ := bytes_cons hd
      unfold modeLoop
      rw [if_pos h0]
      dsimp only
      rw [modeLoop_copies hm (i + 1) 0 hrest]
      simp [copyStores]
  | cons b name ih =>
    cases n with
    | zero => cases hd
    | succ n =>
      obtain ⟨hb, hrest⟩ := bytes_cons hd
      have hne : d i ≠ 0 := fun h0 => h (by rw [← h0, hb]; exact List.mem_cons_self)
      unfold modeLoop
      rw [if_neg hne]
      exact ih (fun hm => h (List.mem_cons_of_mem b hm)) (i + 1) hrest

/-! ## The getters -/

theorem tftpOp_request (hop : op = 1 ∨ op = 2) (hp : p.Holds (tftpRequest op name mode opts)) :
    p.tftpOp = .rrq ∨ p.tftpOp = .wrq := by
  have hu := hp.u16_be16 (by omega)
  unfold Pkt.tftpOp
  rw [hu]
  exact hop.imp (fun h => by rw [h]; rfl) fun h => by rw [h]; rfl

/-- What the getters scan. -/
theorem request_bytes (hp : p.Holds (tftpRequest op name mode opts)) :
    (List.range (p.len - 2)).map (fun k => p.tftpData k) = name ++ 0 :: (mode ++ 0 :: opts) := by
  have hb := hp.behind 2
  rw [← hp.len] at hb
  exact hb

theorem getFilename_request (hop : op = 1 ∨ op = 2) (hn : 0 ∉ name) (hp : p.Holds (tftpRequest op name mode opts))
    (hlen : p.len ≤ 513) : ∃ st, tftpGetFilename p = some st ∧ st.Yields name := by
  refine ⟨copyStores p.tftpData (p.len - 2), ?_, copyStores_yields ?_ ?_⟩
  · unfold tftpGetFilename
    rcases tftpOp_request hop hp with h | h
    · rw [h]
    · rw [h]
  · unfold tftpBufSize
    omega
  · rw [request_bytes hp]
    exact takeWhile_nul hn _

theorem getMode_request (hop : op = 1 ∨ op = 2) (hn : 0 ∉ name) (hm : 0 ∉ mode)
    (hp : p.Holds (tftpRequest op name mode opts)) (hlen : p.len ≤ 513) :
    ∃ st, tftpGetMode p = some st ∧ st.Yields mode := by
  have hbytes := request_bytes hp
  have hmode : mode.length < tftpBufSize := by
    have hall := congrArg List.length hbytes
    simp only [List.length_map, List.length_range, List.length_append, List.length_cons] at hall
    unfold tftpBufSize
    omega
  refine ⟨copyStores (fun k => mode.getD k 0) mode.length, ?_, copyStores_yields hmode ?_⟩
  · have hloop : modeLoop p.tftpData 0 (p.len - 2) none = some (copyStores (fun k => mode.getD k 0) mode.length) :=
      modeLoop_skips hn 0 (by simpa using hbytes) hm
    unfold tftpGetMode
    rcases tftpOp_request hop hp with h | h
    · rw [h]
      exact hloop
    · rw [h]
      exact hloop
  · have hself : (List.range mode.length).map (fun k => mode.getD k 0) = mode :=
      List.ext_getElem (by simp) fun i h1 h2 => by simp [List.getElem?_eq_getElem h2]
    rw [hself]
    refine List.takeWhile_eq_self_iff.mpr fun b hb => ?_
    simp only [ne_eq, decide_not, Bool.not_eq_true', decide_eq_false_iff_not]
    exact fun h0 => hm (h0 ▸ hb)

theorem getErrmsg_error (hm : 0 ∉ msg) (hlen : msg.length ≤ 510) (hp : p.Holds (tftpErrorRepl stack err msg)) :
    ∃ st, tftpGetErrmsg p = some st ∧ st.Yields msg := by
  rw [tftpErrorRepl_eq (show msg.length + 2 ≤ 512 by omega)] at hp
  have hplen : p.len = 5 + msg.length := by
    rw [hp.len]
    simp [tftpErrorPkt]
    omega
  refine ⟨copyStores (fun i => p.tftpData (i + 2)) (p.len - 4), ?_, copyStores_yields ?_ ?_⟩
  · have hu : p.u16 0 = 5 := by
      have hp' : p.Holds (be16 5 ++ (be16 err ++ msg ++ [0])) := by
        simpa [tftpErrorPkt] using hp
      exact hp'.u16_be16 (by decide)
    unfold tftpGetErrmsg Pkt.tftpOp
    rw [hu]
    rfl
  · unfold tftpBufSize
    omega
  · have hb := hp.behind 4
    rw [← hp.len] at hb
    have hdata : (List.range (p.len - 4)).map (fun i => p.tftpData (i + 2)) = msg ++ 0 :: [] := by
      rw [show msg ++ 0 :: [] = (tftpErrorPkt err msg).drop 4 from rfl, ← hb]
      refine List.map_congr_left fun i _ => ?_
      show p.mem (2 + (i + 2)) = p.mem (4 + i)
      rw [show 2 + (i + 2) = 4 + i by omega]
    rw [hdata]
    exact takeWhile_nul hm []

end

/-- **String fields decode what was encoded**: the name and the mode of every request of at
most 513 bytes, and every message of at most 510. -/
theorem tftp_fields :
    (∀ (op : Nat) (name mode : CStr) (opts : List UInt8) (p : Pkt), op = 1 ∨ op = 2 → 0 ∉ name → 0 ∉ mode →
      p.Holds (tftpRequest op name mode opts) → p.len ≤ 513 →
        (∃ st, tftpGetFilename p = some st ∧ st.Yields name) ∧ ∃ st, tftpGetMode p = some st ∧ st.Yields mode) ∧
    ∀ (stack : Buf) (err : Nat) (msg : CStr) (p : Pkt), 0 ∉ msg → msg.length ≤ 510 →
      p.Holds (tftpErrorRepl stack err msg) → ∃ st, tftpGetErrmsg p = some st ∧ st.Yields msg :=
  ⟨fun _ _ _ _ _ hop hn hm hp hlen => ⟨getFilename_request hop hn hp hlen, getMode_request hop hn hm hp hlen⟩,
    fun _ _ _ _ hm hlen hp => getErrmsg_error hm hlen hp⟩

/-- `\x00\x01boot\x00octet\x00`, and the message of a server that is busy. -/
theorem tftp_fields_boot :
    ((∃ st, tftpGetFilename (.ofBytes (tftpRequest 1 (cstr "boot") (cstr "octet") [])) = some st ∧
        st.Yields (cstr "boot")) ∧
      ∃ st, tftpGetMode (.ofBytes (tftpRequest 1 (cstr "boot") (cstr "octet") [])) = some st ∧
        st.Yields (cstr "octet")) ∧
    ∃ st, tftpGetErrmsg (.ofBytes (tftpErrorRepl [] 0 (cstr "server busy"))) = some st ∧
      st.Yields (cstr "server busy") :=
  ⟨tftp_fields.1 1 (cstr "boot") (cstr "octet") [] _ (.inl rfl) (by decide) (by decide) (Pkt.ofBytes_holds _)
      (by decide),
    tftp_fields.2 [] 0 (cstr "server busy") _ (by decide) (by decide) (Pkt.ofBytes_holds _)⟩

end Bootd
