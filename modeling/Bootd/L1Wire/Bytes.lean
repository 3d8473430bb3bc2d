import Mathlib.Data.List.Basic
import Mathlib.Tactic.Ring

/-!
# Bytes, C strings, addresses and packet memory

A handler gets a pointer and a length. `Pkt` keeps both apart: `mem` is the
memory from the pointer on, `len` the number of bytes received. Nothing stops
a handler from reading past `len`; what it finds there is whatever the receive
buffer held before.

C strings are NUL-free byte lists (`CStr`), the NULL pointer is `none`. C's
`int` is `Int`, brought back into 32 bits by `int32` where the code adds.
-/
namespace Bootd

abbrev CStr := List UInt8

/-- The bytes of a string constant of the source. -/
def cstr (s : String) : CStr := s.toList.map fun c => UInt8.ofNat c.toNat

/-- Two's complement value of an `int`. -/
def int32 (x : Int) : Int := x.bmod (2 ^ 32)

theorem int32_of_fits {x : Int} (h : -2 ^ 31 ≤ x) (h' : x < 2 ^ 31) : int32 x = x := by
  unfold int32
  rw [Int.bmod_eq_of_le] <;> omega

/-- From 2^31 on it wraps round. -/
theorem int32_of_large {x : Int} (h : 2 ^ 31 ≤ x) (h' : x < 2 ^ 32) : int32 x = x - 2 ^ 32 := by
  unfold int32
  rw [Int.bmod_def, Int.emod_eq_of_lt (by omega) (by omega), if_neg (by omega)]
  omega

/-- `htons` of the low 16 bits of `n`, as the two bytes stored. -/
def be16 (n : Nat) : List UInt8 := [UInt8.ofNat (n / 256), UInt8.ofNat n]

@[simp] theorem be16_length (n : Nat) : (be16 n).length = 2 := rfl

theorem be16_val (n : Nat) :
    (UInt8.ofNat (n / 256)).toNat * 256 + (UInt8.ofNat n).toNat = n % 65536 := by
  simp only [UInt8.toNat_ofNat']
  omega

/-- `strcasecmp` compares under `tolower` of the C locale. -/
def lower (b : UInt8) : UInt8 := if 65 ≤ b ∧ b ≤ 90 then b + 32 else b

def upper (b : UInt8) : UInt8 := if 97 ≤ b ∧ b ≤ 122 then b - 32 else b

/-- `strcasecmp(a, b) == 0`. -/
def strcasecmp (a b : CStr) : Bool := a.map lower == b.map lower

theorem strcasecmp_iff {a b : CStr} : strcasecmp a b = true ↔ a.map lower = b.map lower := by
  simp [strcasecmp]

theorem strcasecmp_comm (a b : CStr) : strcasecmp a b = strcasecmp b a := by
  simp only [strcasecmp, Bool.beq_comm]

/-- `str_is_equal`: false as soon as one side is NULL.
mirrors src/str.c:18-25 -/
def strIsEqual : Option CStr → Option CStr → Bool
  | some a, some b => a == b
  | _, _ => false

theorem strIsEqual_iff {a b : Option CStr} :
    strIsEqual a b = true ↔ ∃ x, a = some x ∧ b = some x := by
  cases a <;> cases b <;> simp [strIsEqual]
  exact ⟨fun h => h.symm, fun h => h.symm⟩

/-! ## Addresses -/

/-- An Ethernet address. mirrors src/genutil.h:68-70 (`etheraddr_t`) -/
structure Ether where
  octet : Vector UInt8 6
  deriving DecidableEq

def Ether.zero : Ether := ⟨.replicate 6 0⟩

/-- `s_addr`: the four bytes in network order, as the host reads them. -/
abbrev Ip := UInt32

/-- `struct sockaddr_in`; `port` is `ntohs(sin_port)`. -/
structure SockAddr where
  addr : Ip
  port : UInt16
  deriving DecidableEq

/-- A zeroed `struct sockaddr_in`: INADDR_ANY and port 0. -/
def SockAddr.any : SockAddr := ⟨0, 0⟩

/-- mirrors src/util.c:42-56 -/
def utilEtherValid (e : Ether) : Bool := e != Ether.zero

/-- mirrors src/util.c:58-65 -/
def utilIpValid (ip : Ip) : Bool := ip != 0

/-! ## Packet memory -/

structure Pkt where
  mem : Nat → UInt8
  len : Nat

/-- `ntohs` of the two bytes at offset `o`. -/
def Pkt.u16 (p : Pkt) (o : Nat) : Nat := (p.mem o).toNat * 256 + (p.mem (o + 1)).toNat

/-- The `n` bytes at offset `o`. -/
def Pkt.bytes (p : Pkt) (o n : Nat) : List UInt8 := (List.range n).map fun i => p.mem (o + i)

def Pkt.ether (p : Pkt) (o : Nat) : Ether := ⟨.ofFn fun i => p.mem (o + i.val)⟩

/-- A received packet with the bytes `bs`, in a zeroed buffer. -/
def Pkt.ofBytes (bs : List UInt8) : Pkt := ⟨fun i => bs.getD i 0, bs.length⟩

end Bootd
