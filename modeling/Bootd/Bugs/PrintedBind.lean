import Bootd.Bugs.SignedPort

/-!
# Printed addresses that are not read

Where the host of a bind specification begins with a digit, it must be an IP address
(src/str.c:170-175). But `inet_aton` is asked about the whole text `w`, the colon and the
port included, instead of `dsthost`. So no text with an address and a port is accepted,
and `str_sai` prints a colon after every address.

Counterexample: `10.0.0.1:69` (`printed_refused`).

* `strSai_any`: how the texts without an address are read.
* `printed_bind_iff`: the addresses that are bound again are those with host 0.0.0.0.
-/
namespace Bootd

/-! ## `str_sai` -/

/-- The text of `inet_ntoa`. -/
def dottedQuad (ip : Ip) : CStr := List.intercalate [46] ((ipBytes ip).map fun b => decText b.toNat)

/-- `snprintf(dst, size, …)` of the text `s`. -/
def snprintf (dst : Buf) (size : Nat) (s : CStr) : Buf :=
  if size = 0 then dst else s.take (size - 1) ++ 0 :: dst.drop (min s.length (size - 1) + 1)

/-- mirrors src/str.c:423-446 -/
def strSai (lib : Conf) (sai : Option SockAddr) (l : Nat) (dst : Buf) : Buf :=
  match sai with
  | none => strncpy dst (cstr "*:*") l
  | some sai =>
    if sai.addr ≠ 0 then
      if sai.port = 0 then snprintf dst l (lib.inetNtoa sai.addr ++ cstr ":*")
      else snprintf dst l (lib.inetNtoa sai.addr ++ cstr ":" ++ decText sai.port.toNat)
    else if sai.port = 0 then strncpy dst (cstr "*:*") l
    else snprintf dst l (cstr "*:" ++ decText sai.port.toNat)

/-- `inet_ntoa` prints dotted quads, and `inet_aton` takes none that is followed by a colon. -/
structure InetTexts (lib : Conf) : Prop where
  ntoa : ∀ ip, lib.inetNtoa ip = dottedQuad ip
  colon : ∀ ip u, lib.inetAton (dottedQuad ip ++ 58 :: u) = none

/-- What `str_sai` prints for `(a, p)` into any buffer with room for it is read as the two
parts of it, and binds `(a, p)` where a slot is free. -/
def BindsBack (env : SetupEnv) (a : Ip) (p : UInt16) : Prop := ∀ (l : Nat) (dst : Buf), 22 ≤ l →
  strGetHostport env.lib.inetAton env.stack (strOf (strSai env.lib (some ⟨a, p⟩) l dst)) =
      some (if a = 0 then [] else env.lib.inetNtoa a, if p = 0 then [] else decText p.toNat) ∧
    ∀ (s : Nat) (sv : NetService) (st : Setup), st.services[s]? = some sv → sv.bindaddr.length < serviceBindMax →
      serviceUdpAdd env s (strOf (strSai env.lib (some ⟨a, p⟩) l dst)) st =
        .ok (true, { st with services := st.services.set s { sv with bindaddr := sv.bindaddr ++ [⟨a, p⟩] } })

section
variable {env : SetupEnv} {lib : Conf} {a : Ip} {p : UInt16} {l : Nat} {dst : Buf} {s u : CStr}

theorem strOf_snprintf (h0 : 0 ∉ s) (h : s.length < l) (dst : Buf) : strOf (snprintf dst l s) = s := by
  unfold snprintf
  rw [if_neg (by omega), List.take_of_length_le (by omega), strOf_append h0]
  simp [strOf]

theorem digit_ne_zero {b : UInt8} (h : isdigit b = true) : b ≠ 0 := by
  rintro rfl
  exact absurd h (by decide)

theorem decText_nul (n : Nat) : 0 ∉ decText n := fun h => digit_ne_zero (decText_digits n 0 h) rfl

theorem startsDigit_decText (n : Nat) (u : CStr) : startsDigit (decText n ++ u) = true := by
  cases h : decText n with
  | nil => exact absurd h (decText_ne_nil n)
  | cons b w => exact decText_digits n b (h ▸ List.mem_cons_self)

theorem startsDigit_quad (ip : Ip) (u : CStr) : startsDigit (dottedQuad ip ++ u) = true := by
  unfold dottedQuad ipBytes
  rw [List.map_cons, List.map_cons, List.intercalate_cons_cons, List.append_assoc, List.append_assoc]
  exact startsDigit_decText _ _

theorem dottedQuad_nul (ip : Ip) : 0 ∉ dottedQuad ip := by
  simp [dottedQuad, ipBytes, List.intercalate_cons_cons, decText_nul]

theorem decText_short (p : UInt16) : (decText p.toNat).length ≤ 5 := by
  rw [decText_eq, List.length_map, Nat.length_toDigits_le_iff (by decide) (by decide)]
  exact Nat.lt_of_lt_of_le p.toNat_lt (by decide)

/-- The text of a port. -/
def portText (p : UInt16) : CStr := if p = 0 then cstr "*" else decText p.toNat

theorem portText_nul (p : UInt16) : 0 ∉ portText p := by
  unfold portText
  split_ifs
  · decide
  · exact decText_nul _

theorem portText_short (p : UInt16) : (portText p).length ≤ 5 := by
  unfold portText
  split_ifs
  · decide
  · exact decText_short p

/-- An address is printed with its colon. -/
theorem strSai_addr (ha : a ≠ 0) (hnul : 0 ∉ lib.inetNtoa a) (hl : (lib.inetNtoa a).length + 7 ≤ l) (dst : Buf) :
    strOf (strSai lib (some ⟨a, p⟩) l dst) = lib.inetNtoa a ++ 58 :: portText p := by
  have hport := portText_nul p
  have hlen := portText_short p
  have htext : strSai lib (some ⟨a, p⟩) l dst = snprintf dst l (lib.inetNtoa a ++ 58 :: portText p) := by
    unfold strSai portText
    simp only [if_pos ha]
    split_ifs
    · rfl
    · rw [List.append_assoc]
      rfl
  rw [htext]
  refine strOf_snprintf ?_ ?_ dst
  · simp only [List.mem_append, List.mem_cons, not_or]
    exact ⟨hnul, by decide, hport⟩
  · rw [List.length_append, List.length_cons]
    omega

theorem strSai_any (hl : 22 ≤ l) (dst : Buf) :
    strOf (strSai lib (some ⟨0, p⟩) l dst) = cstr "*" ++ 58 :: portText p := by
  unfold strSai portText
  simp only [ne_eq, not_true_eq_false, if_false]
  split_ifs
  · exact strOf_strncpy_fits (by decide) (Nat.le_trans (by decide) hl)
  · have hlen := decText_short p
    refine strOf_snprintf ?_ ?_ dst
    · simp only [List.mem_append, not_or]
      exact ⟨by decide, decText_nul _⟩
    · rw [List.length_append]
      have : (cstr "*:").length = 2 := rfl
      omega

/-! ## Texts for any host -/

/-- The port as it is read back. -/
def portRead (p : UInt16) : CStr := if p = 0 then [] else decText p.toNat

theorem portText_read (p : UInt16) : (if portText p = cstr "*" then [] else portText p) = portRead p := by
  unfold portText portRead
  split_ifs with h0 hstar
  · rfl
  · exact absurd rfl hstar
  · have hdigit := startsDigit_decText p.toNat []
    rw [List.append_nil, ‹decText p.toNat = cstr "*"›] at hdigit
    exact absurd hdigit (by decide)
  · rfl

theorem toNat_ne_zero (h : p ≠ 0) : p.toNat ≠ 0 := fun h0 => h (UInt16.toNat_inj.mp h0)

theorem checkPort_read (host : CStr) (p : UInt16) : checkPort host (portRead p) = some (host, portRead p) := by
  unfold portRead
  split_ifs with h0
  · rfl
  · have hdigit := startsDigit_decText p.toNat []
    rw [List.append_nil] at hdigit
    have hlt := p.toNat_lt
    have hne := toNat_ne_zero h0
    rw [checkPort_digit hdigit (intText_decText _), if_pos ⟨by omega, by omega⟩, if_neg (by omega)]

theorem bindPort_read (env : SetupEnv) (p : UInt16) : bindPort env (portRead p) = some p := by
  unfold portRead
  split_ifs with h0
  · subst h0
    rfl
  · have hlt := p.toNat_lt
    have hne := toNat_ne_zero h0
    have hport : bindPort env (if (p.toNat : Int) = 0 then [] else decText p.toNat) = _ :=
      bindPort_checked (intText_decText p.toNat) (by omega) (by omega)
    rw [if_neg (by omega)] at hport
    rw [hport]
    refine congrArg some (UInt16.toNat_inj.mp ?_)
    have hval := toNat_ofInt (n := (p.toNat : Int)) (by omega) (by omega)
    omega

theorem strGetHostport_any (inetAton : CStr → Option Ip) (stack : Buf) (p : UInt16) :
    strGetHostport inetAton stack (cstr "*" ++ 58 :: portText p) = some ([], portRead p) := by
  have hnul : 0 ∉ cstr "*" ++ 58 :: portText p := by
    simp only [List.mem_append, List.mem_cons, not_or]
    exact ⟨by decide, by decide, portText_nul p⟩
  have hspace : 32 ∉ cstr "*" ++ 58 :: portText p := by
    simp only [List.mem_append, List.mem_cons, not_or]
    refine ⟨by decide, by decide, ?_⟩
    unfold portText
    split_ifs
    · decide
    · exact fun h => absurd (decText_digits _ 32 h) (by decide)
  have hlen := portText_short p
  have hshort : (cstr "*" ++ 58 :: portText p).length ≤ 254 := by
    rw [List.length_append, List.length_cons]
    have : (cstr "*").length = 1 := rfl
    omega
  have hsplit := splitPort_colon (show 58 ∉ cstr "*" by decide) (portText p)
  rw [if_pos rfl, portText_read] at hsplit
  obtain ⟨hhost, hport⟩ := copies_short hnul hshort stack
  have href : ¬HostRefused inetAton (cstr "*" ++ 58 :: portText p) := by
    rintro (h | ⟨h, -⟩)
    · exact hspace h
    · have hstar : startsDigit (cstr "*" ++ 58 :: portText p) = false := rfl
      rw [hstar] at h
      cases h
  rw [strGetHostport_checked stack href, hhost, hport, hsplit, checkPort_read]

end

/-- **The addresses that are bound again**: those of any host. -/
theorem printed_bind_iff (env : SetupEnv) (hlib : InetTexts env.lib) (a : Ip) (p : UInt16) :
    BindsBack env a p ↔ a = 0 := by
  constructor
  · intro h
    by_contra ha
    have hnul : 0 ∉ env.lib.inetNtoa a := hlib.ntoa a ▸ dottedQuad_nul a
    have hread := (h ((env.lib.inetNtoa a).length + 22) [] (by omega)).1
    rw [strSai_addr ha hnul (by omega), hlib.ntoa a] at hread
    have href : HostRefused env.lib.inetAton (dottedQuad a ++ 58 :: portText p) :=
      .inr ⟨startsDigit_quad a _, hlib.colon a _⟩
    rw [strGetHostport_refused href] at hread
    cases hread
  · rintro rfl l dst hl
    have hread := strGetHostport_any env.lib.inetAton env.stack p
    rw [strSai_any hl dst]
    refine ⟨by rw [hread, if_pos rfl]; rfl, fun s sv st hsv hfree => ?_⟩
    rw [serviceUdpAdd_bound hread (bindPort_read env p)]
    exact lServiceUdpIpAdd_run hsv hfree

/-! ## A C library -/

/-- Four numbers below 256, with dots between them. -/
def quadAton (w : CStr) : Option Ip :=
  if w.all fun b => isdigit b || b == 46 then
    match (w.splitOn 46).map digitsValue with
    | [a, b, c, d] =>
      if a < 256 ∧ b < 256 ∧ c < 256 ∧ d < 256 then some (.ofNat (((a * 256 + b) * 256 + c) * 256 + d)) else none
    | _ => none
  else none

/-- A machine that knows addresses. -/
def quadEnv : SetupEnv := { plainEnv with lib := { plainConf with inetAton := quadAton, inetNtoa := dottedQuad } }

theorem quadEnv_texts : InetTexts quadEnv.lib where
  ntoa _ := rfl
  colon ip u := by
    have haton : quadEnv.lib.inetAton = quadAton := rfl
    rw [haton, quadAton]
    rw [if_neg]
    intro hall
    have h58 := List.all_eq_true.mp hall 58 (by simp)
    exact absurd h58 (by decide)

/-- Any host, port 69. -/
theorem printed_bind_any : BindsBack quadEnv 0 69 := (printed_bind_iff quadEnv quadEnv_texts 0 69).mpr rfl

/-- **Counterexample**: 10.0.0.1, port 69, is not bound. -/
theorem printed_refused : ¬∀ (env : SetupEnv) (a : Ip) (p : UInt16), InetTexts env.lib → BindsBack env a p := by
  intro h
  have hread := (h quadEnv 0x0A000001 69 quadEnv_texts 100 [] (by decide)).1
  rw [show strOf (strSai quadEnv.lib (some ⟨0x0A000001, 69⟩) 100 []) = cstr "10.0.0.1:69" by decide] at hread
  exact absurd hread (by decide)

end Bootd
