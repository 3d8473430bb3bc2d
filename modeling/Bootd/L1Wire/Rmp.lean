import Bootd.L1Wire.Bytes

/-!
# RMP and RARP frames (`rmp.h`, `rarp.h`)

Field offsets count from the first byte of the Ethernet header, which both
packet structs include. Replies are the bytes of the struct in memory, of
which the handlers send a prefix.
-/
namespace Bootd

/-! ## RMP -/

/-- mirrors src/rmp.h:18 -/
def rmpAddr : Ether := ⟨#v[0x9, 0x0, 0x9, 0x0, 0x0, 0x4]⟩

def sapHp : UInt8 := 0xF8
def cntlHp : Nat := 0x300
def dxsapHp : Nat := 0x608
def sxsapHp : Nat := 0x609

inductive RmpOp
  | bootReq | readReq | bootDone
  | other (n : UInt8)
  deriving DecidableEq

/-- The `type` byte. mirrors src/rmp.h:25-29 -/
def RmpOp.ofByte (b : UInt8) : RmpOp :=
  if b = 1 then .bootReq else if b = 2 then .readReq else if b = 3 then .bootDone else .other b

def rmpBootRepl : UInt8 := 129
def rmpReadRepl : UInt8 := 130

def rmpVersion : Nat := 2
def rmpProbesid : Nat := 0xffff
def rmpMachlen : Nat := 20

/-! Return codes. mirrors src/rmp.h:36-46 -/

def rmpEOkay : UInt8 := 0
def rmpEEof : UInt8 := 2
def rmpEAbort : UInt8 := 3
def rmpEBusy : UInt8 := 4
def rmpENofile : UInt8 := 16
def rmpEOpenfile : UInt8 := 17
def rmpENodflt : UInt8 := 18
def rmpEBadsid : UInt8 := 25

/-- `sizeof(struct rmp_header)`. -/
def rmpHeaderLen : Nat := 32

/-- Lengths of the fixed parts as the handler computes with them; both leave
out the 14 bytes of the Ethernet header. mirrors src/rmp.h:50-52 -/
def rmpBootReplLen : Nat := 21
def rmpReadReplLen : Nat := 18

/-- `RMP_READ_REPL_DATALEN`. -/
def rmpReadReplDatalen : Nat := 1514 - 14 - rmpReadReplLen

def Pkt.rmpDaddr (p : Pkt) : Ether := p.ether 0
def Pkt.rmpSaddr (p : Pkt) : Ether := p.ether 6
def Pkt.rmpDsap (p : Pkt) : UInt8 := p.mem 14
def Pkt.rmpCntl (p : Pkt) : Nat := p.u16 16
def Pkt.rmpDxsap (p : Pkt) : Nat := p.u16 20
def Pkt.rmpOp (p : Pkt) : RmpOp := .ofByte (p.mem 24)

/-- `ntohs(seqh) << 16 | ntohs(seql)`, in an `int`. -/
def Pkt.rmpSeq (p : Pkt) : Int := int32 (p.u16 26 * 65536 + p.u16 28)

def Pkt.rmpSession (p : Pkt) : Nat := p.u16 30
def Pkt.rmpBootVersion (p : Pkt) : Nat := p.u16 32

/-- mirrors src/rmp.c:201-211 -/
def Pkt.rmpMachtype (p : Pkt) : CStr :=
  (p.bytes 34 rmpMachlen).takeWhile fun b => b ≠ 0x20 ∧ b ≠ 0

/-- The C string in the buffer that `rmp_filename` fills.
mirrors src/rmp.c:213-223 -/
def Pkt.rmpFilename (p : Pkt) : CStr := (p.bytes 55 (p.mem 54).toNat).takeWhile (· ≠ 0)

/-- `ntohs(read_req->size)`. -/
def Pkt.rmpReadSize (p : Pkt) : Nat := p.u16 32

/-- The reply's header: addresses turned round, sequence number and session
copied from the request. `session` is the two bytes of the field.
mirrors src/rmp.c:66-82 -/
def rmpHeader (p : Pkt) (eth : Ether) (len : Nat) (type retcode : UInt8) (session : List UInt8) :
    List UInt8 :=
  p.rmpSaddr.octet.toList ++ eth.octet.toList ++ be16 len ++ [sapHp, sapHp] ++ be16 cntlHp ++
    be16 0 ++ be16 sxsapHp ++ be16 dxsapHp ++ [type, retcode] ++ p.bytes 26 4 ++ session

/-- A boot reply with a file name, of which `21 + flnm_size` bytes are sent;
the size field is a byte.
mirrors src/rmp.c:95-118 -/
def rmpBootReplFrame (p : Pkt) (eth : Ether) (retcode : UInt8) (filename : CStr) : List UInt8 :=
  let size := (UInt8.ofNat filename.length).toNat
  let npktlen := rmpBootReplLen + size
  (rmpHeader p eth npktlen rmpBootRepl retcode (be16 0) ++ be16 rmpVersion ++ [UInt8.ofNat size] ++
    filename ++ [0]).take npktlen

/-- A read reply; `none` is a failed read, with size -1.
mirrors src/rmp.c:158-190 -/
def rmpReadReplFrame (p : Pkt) (eth : Ether) (retcode : UInt8) (data : Option (List UInt8)) :
    List UInt8 :=
  let npktlen := match data with
    | some d => rmpReadReplLen + d.length
    | none => rmpReadReplLen - 1
  (rmpHeader p eth npktlen rmpReadRepl retcode (p.bytes 30 2) ++ data.getD []).take npktlen

@[simp] theorem ether_octet_length (e : Ether) : e.octet.toList.length = 6 := by simp

@[simp] theorem rmpHeader_length (p : Pkt) (eth : Ether) (len : Nat) (type retcode : UInt8)
    (session : List UInt8) (h : session.length = 2) :
    (rmpHeader p eth len type retcode session).length = rmpHeaderLen := by
  simp [rmpHeader, Pkt.bytes, rmpHeaderLen, h]

/-! ## RARP -/

def ethertypeRevarp : Nat := 0x8035
def ethertypeIp : Nat := 0x0800

/-- The five checks of a RARP packet.
mirrors src/rarp.c:36-43 -/
def Pkt.isRarp (p : Pkt) : Bool :=
  p.u16 12 = ethertypeRevarp ∧ p.u16 14 = 1 ∧ p.u16 16 = ethertypeIp ∧ p.mem 18 = 6 ∧ p.mem 19 = 4

def Pkt.rarpOp (p : Pkt) : Nat := p.u16 20
def Pkt.rarpTha (p : Pkt) : Ether := p.ether 32

/-- The data of a read reply, as the receiver takes it off the wire. -/
def readReplData (frame : List UInt8) : Option (List UInt8) :=
  if frame[24]? = some rmpReadRepl ∧ (frame.drop 12).take 2 ≠ be16 ethertypeRevarp then
    some (frame.drop rmpHeaderLen)
  else none

/-- `ARPOP_REVREQUEST`. -/
def arpopRevrequest : Nat := 3

/-- The four bytes of an address as they lie in memory. -/
def ipBytes (ip : Ip) : List UInt8 :=
  [(ip >>> 24).toUInt8, (ip >>> 16).toUInt8, (ip >>> 8).toUInt8, ip.toUInt8]

/-- The reply: 42 bytes of header, the rest of the 60 as it was on the stack.
mirrors src/rarp.c:58-84 -/
def rarpReplFrame (p : Pkt) (eth : Ether) (lip hip : Ip) (stack : Nat → UInt8) : List UInt8 :=
  (p.ether 6).octet.toList ++ eth.octet.toList ++ be16 ethertypeRevarp ++ be16 1 ++
    be16 ethertypeIp ++ [6, 4] ++ be16 4 ++ eth.octet.toList ++ ipBytes lip ++
    p.rarpTha.octet.toList ++ ipBytes hip ++ (List.range 18).map fun i => stack (42 + i)

/-! ## What the receivers see -/

theorem rmpHeader_type (p : Pkt) (eth : Ether) (len : Nat) (type retcode : UInt8)
    (session : List UInt8) : (rmpHeader p eth len type retcode session)[24]? = some type := by
  unfold rmpHeader
  rw [List.getElem?_append_left, List.getElem?_append_left, List.getElem?_append_right] <;>
    simp [Pkt.bytes]

theorem rmpHeader_retcode (p : Pkt) (eth : Ether) (len : Nat) (type retcode : UInt8)
    (session : List UInt8) : (rmpHeader p eth len type retcode session)[25]? = some retcode := by
  unfold rmpHeader
  rw [List.getElem?_append_left, List.getElem?_append_left, List.getElem?_append_right] <;>
    simp [Pkt.bytes]

theorem rmpHeader_lenField (p : Pkt) (eth : Ether) (len : Nat) (type retcode : UInt8)
    (session rest : List UInt8) :
    ((rmpHeader p eth len type retcode session ++ rest).drop 12).take 2 = be16 len := by
  simp only [rmpHeader, List.append_assoc]
  rw [← List.append_assoc, List.drop_left' (by simp)]
  exact List.take_left' (be16_length _)

/-! ### The boot reply -/

section
variable (p : Pkt) (eth : Ether) (retcode : UInt8) (filename : CStr)

theorem rmpBootReplFrame_length :
    (rmpBootReplFrame p eth retcode filename).length = rmpBootReplLen + filename.length % 256 := by
  simp only [rmpBootReplFrame, List.length_take, List.length_append, UInt8.toNat_ofNat',
    rmpHeader_length p eth _ _ _ _ (be16_length 0), be16_length, List.length_singleton]
  simp only [rmpBootReplLen, rmpHeaderLen]
  have := Nat.mod_le filename.length 256
  omega

/-- The fields of a boot reply that is long enough to have them. -/
theorem rmpBootReplFrame_fields (hlen : 14 ≤ filename.length % 256) :
    (rmpBootReplFrame p eth retcode filename)[24]? = some rmpBootRepl ∧
      (rmpBootReplFrame p eth retcode filename)[25]? = some retcode ∧
      (rmpBootReplFrame p eth retcode filename)[34]? = some (UInt8.ofNat filename.length) ∧
      ((rmpBootReplFrame p eth retcode filename).drop 12).take 2 =
        be16 (rmpBootReplLen + filename.length % 256) := by
  unfold rmpBootReplFrame
  simp only [UInt8.toNat_ofNat', rmpBootReplLen, Nat.reducePow]
  have hhead := rmpHeader_length p eth (21 + filename.length % 256) rmpBootRepl retcode (be16 0)
    (be16_length 0)
  rw [rmpHeaderLen] at hhead
  refine ⟨?_, ?_, ?_, ?_⟩
  · rw [List.getElem?_take_of_lt (by omega), List.append_assoc, List.append_assoc, List.append_assoc,
      List.getElem?_append_left (by omega), rmpHeader_type]
  · rw [List.getElem?_take_of_lt (by omega), List.append_assoc, List.append_assoc, List.append_assoc,
      List.getElem?_append_left (by omega), rmpHeader_retcode]
  · rw [List.getElem?_take_of_lt (by omega), List.append_assoc, List.append_assoc, List.append_assoc,
      List.getElem?_append_right (by omega), hhead]
    exact congrArg some (UInt8.toNat_inj.mp (by simp))
  · rw [List.drop_take, List.take_take, Nat.min_eq_left (by omega)]
    simp only [List.append_assoc]
    exact rmpHeader_lenField ..

end

/-! ### The other replies -/

theorem rmpReadReplFrame_length (p : Pkt) (eth : Ether) (retcode : UInt8)
    (data : Option (List UInt8)) :
    (rmpReadReplFrame p eth retcode data).length = (data.map fun d => 18 + d.length).getD 17 := by
  have hhead := fun len => rmpHeader_length p eth len rmpReadRepl retcode (p.bytes 30 2) (by simp [Pkt.bytes])
  cases data with
  | none =>
    simp only [rmpReadReplFrame, List.length_take, List.length_append, hhead]
    simp [rmpHeaderLen, rmpReadReplLen]
  | some d =>
    simp only [rmpReadReplFrame, List.length_take, List.length_append, hhead]
    simp only [rmpHeaderLen, rmpReadReplLen, Option.getD_some, Option.map_some]
    omega

theorem rarpReplFrame_length (p : Pkt) (eth : Ether) (lip hip : Ip) (stack : Nat → UInt8) :
    (rarpReplFrame p eth lip hip stack).length = 60 := by
  simp [rarpReplFrame, ipBytes]

/-- Of the data in a read reply, at most a prefix is on the wire. -/
theorem readReplData_read (p : Pkt) (eth : Ether) (retcode : UInt8) (data : Option (List UInt8))
    (x : List UInt8) (h : readReplData (rmpReadReplFrame p eth retcode data) = some x) :
    ∃ k, x = (data.getD []).take k := by
  unfold readReplData at h
  split at h
  · simp only [rmpReadReplFrame, List.drop_take, Option.some.injEq] at h
    rw [← h, List.drop_append_of_le_length (by simp [Pkt.bytes]),
      List.drop_eq_nil_of_le (by simp [Pkt.bytes])]
    exact ⟨_, rfl⟩
  · cases h

/-- A read reply without data ends before its type byte. -/
theorem readReplData_refused (p : Pkt) (eth : Ether) (retcode : UInt8) :
    readReplData (rmpReadReplFrame p eth retcode (some [])) = none := by
  have hlen : (rmpReadReplFrame p eth retcode (some [])).length ≤ 24 := by
    simp only [rmpReadReplFrame, List.length_take, rmpReadReplLen, List.length_nil]
    omega
  unfold readReplData
  rw [List.getElem?_eq_none hlen, if_neg]
  exact fun h => by cases h.1

theorem readReplData_boot (p : Pkt) (eth : Ether) (retcode : UInt8) (filename : CStr) :
    readReplData (rmpBootReplFrame p eth retcode filename) = none := by
  refine if_neg fun h => ?_
  have h1 := h.1
  rw [rmpBootReplFrame, List.getElem?_take] at h1
  split at h1
  · rw [List.append_assoc, List.append_assoc, List.append_assoc, List.getElem?_append_left,
      rmpHeader_type] at h1
    · exact absurd h1 (by decide)
    · rw [rmpHeader_length _ _ _ _ _ _ rfl]
      decide
  · cases h1

theorem readReplData_rarp (p : Pkt) (eth : Ether) (lip hip : Ip) (stack : Nat → UInt8) :
    readReplData (rarpReplFrame p eth lip hip stack) = none := by
  refine if_neg fun h => h.2 ?_
  simp only [rarpReplFrame, List.append_assoc]
  rw [← List.append_assoc, List.drop_left' (by simp)]
  exact List.take_left' (be16_length _)

end Bootd
