import Bootd.Config.Devices
import Bootd.Config.Numbers

/-!
# Bind specifications (`str.c:137-193`, `service.c:170-244`)

`str_get_hostport` cuts a copy of the text at its first colon, and `service_udp_add`
binds what the two parts stand for. `hostCopy` and `portCopy` are the parts as they are
found in the copy; up to 254 bytes they are those of the text.

* `strGetHostport_eq`: when the text is refused for its host, and `checkPort`, what
  is made of the port.
* `bindHost_binds`: whatever the host is, all slots get that port.
* `bindPort_checked`, `bindPort_number`: which port that is.
-/
namespace Bootd

def startsDigit (w : CStr) : Bool := w.head?.any isdigit

/-- Behind the first colon. -/
def portPart (w : CStr) : CStr := (w.dropWhile (· ≠ 58)).drop 1

/-- `dsthost` and `dstport`. -/
def hostCopy (stack : Buf) (w : CStr) : CStr := strOf (strncpy stack (splitPort (strOf (strncpy stack w 256))).1 512)

def portCopy (stack : Buf) (w : CStr) : CStr := strOf (strncpy stack (splitPort (strOf (strncpy stack w 256))).2 512)

/-- mirrors src/str.c:176-192 -/
def checkPort (host port : CStr) : Option (CStr × CStr) :=
  if startsDigit port then
    let (p, rest) := strtol port
    if rest ≠ [] then none
    else if p < 0 ∨ 65535 < p then none
    else some (host, if p = 0 then [] else port)
  else some (host, port)

/-- The text is refused for its spaces or its host. -/
def HostRefused (inetAton : CStr → Option Ip) (w : CStr) : Prop :=
  32 ∈ w ∨ startsDigit w = true ∧ inetAton w = none

section
variable {w u host : CStr} {stack dst : Buf} {size : Nat} {inetAton : CStr → Option Ip} {v : Int}

@[simp] theorem startsDigit_nil : startsDigit [] = false := rfl

@[simp] theorem startsDigit_cons (b : UInt8) (w : CStr) : startsDigit (b :: w) = isdigit b := rfl

/-! ## The parts -/

/-- The first byte of a string is copied. -/
theorem head_strncpy (h : 2 ≤ size) (dst : Buf) (w : CStr) :
    (strOf (strncpy dst w size)).head? = w.head?.filter (· ≠ 0) := by
  obtain ⟨n, rfl⟩ := Nat.exists_eq_add_of_le' h
  cases w with
  | nil => simp [strncpy, strOf]
  | cons b w =>
    have hcons : ∃ m, strncpy dst (b :: w) (n + 2) = b :: m := by
      unfold strncpy
      rw [List.cons_append, show n + 2 - 1 = n + 1 from rfl, List.take_succ_cons, List.cons_append]
      split_ifs
      · exact ⟨_, rfl⟩
      · exact ⟨_, rfl⟩
    obtain ⟨m, hm⟩ := hcons
    rw [hm, strOf, List.takeWhile_cons, List.head?_cons]
    by_cases hb : b = 0
    · subst hb
      rfl
    · simp [hb, Option.filter]

theorem startsDigit_strncpy (h : 2 ≤ size) (dst : Buf) (w : CStr) :
    startsDigit (strOf (strncpy dst w size)) = startsDigit w := by
  unfold startsDigit
  rw [head_strncpy h]
  cases w with
  | nil => rfl
  | cons b w =>
    by_cases hb : b = 0
    · subst hb
      rfl
    · simp [hb, Option.filter]

theorem startsDigit_splitPort (w : CStr) : startsDigit (splitPort w).1 = startsDigit w := by
  have hcolon : isdigit 58 = false := by decide
  have hstar : isdigit 42 = false := by decide
  unfold splitPort
  cases w with
  | nil => rfl
  | cons b w =>
    by_cases hmem : 58 ∈ b :: w
    · rw [if_pos hmem]
      show startsDigit (if (b :: w).takeWhile (· ≠ 58) = cstr "*" then []
        else (b :: w).takeWhile (· ≠ 58)) = isdigit b
      by_cases hb : b = 58
      · subst hb
        exact hcolon.symm
      · rw [List.takeWhile_cons_of_pos (by simpa using hb)]
        split_ifs with hany
        · -- `*` stands for any host
          have hb42 : b = 42 := (List.cons.inj hany).1
          subst hb42
          exact hstar.symm
        · rfl
    · rw [if_neg hmem]

theorem startsDigit_hostCopy (stack : Buf) (w : CStr) : startsDigit (hostCopy stack w) = startsDigit w := by
  unfold hostCopy
  rw [startsDigit_strncpy (by decide), startsDigit_splitPort, startsDigit_strncpy (by decide)]

theorem splitPort_sublist (w : CStr) : (splitPort w).1.Sublist w ∧ (splitPort w).2.Sublist w := by
  have hhost : (w.takeWhile (· ≠ 58)).Sublist w := (List.takeWhile_prefix _).sublist
  have hport : ((w.dropWhile (· ≠ 58)).drop 1).Sublist w :=
    (List.drop_sublist 1 _).trans (List.dropWhile_suffix _).sublist
  unfold splitPort
  split_ifs
  · refine ⟨?_, ?_⟩
    · dsimp only
      split_ifs
      · exact List.nil_sublist w
      · exact hhost
    · dsimp only
      split_ifs
      · exact List.nil_sublist w
      · exact hport
  · exact ⟨List.Sublist.refl w, List.nil_sublist w⟩

/-- The parts of a text that fits into the copy. -/
theorem copies_short (h0 : 0 ∉ w) (h : w.length ≤ 254) (stack : Buf) :
    hostCopy stack w = (splitPort w).1 ∧ portCopy stack w = (splitPort w).2 := by
  have hpart : ∀ u : CStr, u.Sublist w → strOf (strncpy stack u 512) = u := by
    intro u hu
    have := hu.length_le
    exact strOf_strncpy_fits (fun hmem => h0 (hu.subset hmem)) (by omega)
  unfold hostCopy portCopy
  rw [strOf_strncpy_fits h0 (by omega)]
  exact ⟨hpart _ (splitPort_sublist w).1, hpart _ (splitPort_sublist w).2⟩

theorem portCopy_short (h0 : 0 ∉ w) (h : w.length ≤ 254) (stack : Buf) (hint : intText (portPart w) = some v) :
    portCopy stack w = portPart w := by
  have hstar : portPart w ≠ cstr "*" := by
    intro heq
    have hnone : intText (cstr "*") = none := by decide
    rw [heq, hnone] at hint
    cases hint
  rw [(copies_short h0 h stack).2]
  unfold splitPort
  split_ifs with hmem
  · exact if_neg hstar
  · have hdrop : w.dropWhile (· ≠ 58) = [] :=
      List.dropWhile_eq_nil_iff.mpr fun b hb => by
        simp only [ne_eq, decide_not, Bool.not_eq_true', decide_eq_false_iff_not]
        exact fun hb58 => hmem (hb58 ▸ hb)
    unfold portPart
    rw [hdrop]
    rfl

/-- The parts around the first colon. -/
theorem splitPort_colon (h : 58 ∉ host) (u : CStr) : splitPort (host ++ 58 :: u) =
    (if host = cstr "*" then [] else host, if u = cstr "*" then [] else u) := by
  have hne : ∀ b ∈ host, (decide (b ≠ 58)) = true := fun b hb => by
    simp only [ne_eq, decide_not, Bool.not_eq_true', decide_eq_false_iff_not]
    exact fun hb58 => h (hb58 ▸ hb)
  have htake : (host ++ 58 :: u).takeWhile (· ≠ 58) = host := by
    rw [List.takeWhile_append_of_pos hne, List.takeWhile_cons_of_neg (by simp), List.append_nil]
  have hdrop : (host ++ 58 :: u).dropWhile (· ≠ 58) = 58 :: u := by
    rw [List.dropWhile_append_of_pos hne, List.dropWhile_cons_of_neg (by simp)]
  unfold splitPort
  rw [if_pos (by simp), htake, hdrop]
  rfl

theorem strGetHostport_eq (inetAton : CStr → Option Ip) (stack : Buf) (w : CStr) :
    strGetHostport inetAton stack w =
      if 32 ∈ w ∨ startsDigit w = true ∧ inetAton w = none then none
      else checkPort (hostCopy stack w) (portCopy stack w) := by
  rw [← startsDigit_hostCopy stack w]
  unfold strGetHostport hostCopy portCopy
  generalize splitPort (strOf (strncpy stack w 256)) = parts
  obtain ⟨host, port⟩ := parts
  by_cases hspace : 32 ∈ w
  · rw [if_pos hspace, if_pos (.inl hspace)]
  · rw [if_neg hspace]
    by_cases hhost : startsDigit (strOf (strncpy stack host 512)) = true ∧ inetAton w = none
    · rw [if_pos (.inr hhost)]
      exact if_pos hhost
    · rw [if_neg (not_or.mpr ⟨hspace, hhost⟩)]
      exact if_neg hhost

/-! ## The port -/

theorem strGetHostport_refused (h : HostRefused inetAton w) : strGetHostport inetAton stack w = none := by
  rw [strGetHostport_eq]
  exact if_pos h

theorem strGetHostport_checked (stack : Buf) (h : ¬HostRefused inetAton w) :
    strGetHostport inetAton stack w = checkPort (hostCopy stack w) (portCopy stack w) := by
  rw [strGetHostport_eq]
  exact if_neg h

/-- A port that begins with a digit has to be a number in range. -/
theorem checkPort_digit (hd : startsDigit u = true) (h : intText u = some v) :
    checkPort host u = if 0 ≤ v ∧ v ≤ 65535 then some (host, if v = 0 then [] else u) else none := by
  unfold checkPort
  rw [if_pos hd, strtol_intText h]
  simp only [ne_eq, not_true_eq_false, if_false]
  by_cases hv : 0 ≤ v ∧ v ≤ 65535
  · rw [if_pos hv, clampLong_of_fits (by omega) (by omega), if_neg (by omega)]
  · rw [if_neg hv, if_pos]
    unfold clampLong
    omega

theorem checkPort_word (hd : startsDigit u = true) (h : intText u = none) : checkPort host u = none := by
  have hne : u ≠ [] := by
    rintro rfl
    cases hd
  unfold checkPort
  rw [if_pos hd]
  exact if_pos (strtol_rest h hne)

theorem checkPort_other (hd : startsDigit u = false) : checkPort host u = some (host, u) := by
  unfold checkPort
  rw [hd]
  rfl

end

/-! ## What is bound -/

/-- mirrors src/service.c:189-210 -/
def bindHost (env : SetupEnv) (s : Nat) (host : CStr) (port : UInt16) : SetupM Bool := do
  if host = [] then lServiceUdpIpAdd s 0 port
  else match env.lib.inetAton host with
    | some ip => lServiceUdpIpAdd s ip port
    | none =>
      match env.lib.etherAton host with
      | some eth =>
        match ← deviceSearchByEth env eth with
        | none => pure false
        | some d => lServiceUdpDeviceAdd s d port
      | none =>
        match ← deviceSearchByName env host with
        | some d => lServiceUdpDeviceAdd s d port
        | none =>
          let st ← get
          let ip ← utilName2ip (st.conf env) env.os st.w host
          lServiceUdpIpAdd s ip port

/-- Free slots of service `s` were filled, all with this port. -/
def BindsAt (s : Nat) (port : UInt16) (st st' : Setup) : Prop :=
  ∀ sv, st.services[s]? = some sv → ∃ ips : List Ip,
    st'.services = st.services.set s { sv with bindaddr := sv.bindaddr ++ ips.map (⟨·, port⟩) }

section
variable {env : SetupEnv} {s : Nat} {port : UInt16} {st st' st'' : Setup} {host u : CStr} {r : Bool} {sv : NetService}
  {ip : Ip} {d : Device} {n : Int}

theorem serviceUdpAdd_bound {w : CStr} (hw : strGetHostport env.lib.inetAton env.stack w = some (host, u))
    (hp : bindPort env u = some port) : serviceUdpAdd env s w = bindHost env s host port := by
  unfold serviceUdpAdd
  rw [hw]
  dsimp only
  rw [hp]
  rfl

theorem serviceUdpAdd_refused {w : CStr} (hw : strGetHostport env.lib.inetAton env.stack w = none) :
    serviceUdpAdd env s w = pure false := by
  unfold serviceUdpAdd
  rw [hw]

theorem BindsAt.of_services (h : st'.services = st.services) : BindsAt s port st st' := by
  intro sv hsv
  refine ⟨[], ?_⟩
  rw [h, List.map_nil, List.append_nil]
  exact (set_eq_self hsv).symm

theorem BindsAt.trans (h : BindsAt s port st st') (h' : BindsAt s port st' st'') : BindsAt s port st st'' := by
  intro sv hsv
  obtain ⟨ips, hips⟩ := h sv hsv
  have hlt := (List.getElem?_eq_some_iff.mp hsv).1
  have hsv' : st'.services[s]? = some { sv with bindaddr := sv.bindaddr ++ ips.map (⟨·, port⟩) } := by
    rw [hips]
    exact List.getElem?_set_self hlt
  obtain ⟨ips', hips'⟩ := h' _ hsv'
  refine ⟨ips ++ ips', ?_⟩
  rw [hips', hips, List.set_set, List.map_append, List.append_assoc]

theorem lServiceUdpIpAdd_run (hsv : st.services[s]? = some sv) (hfree : sv.bindaddr.length < serviceBindMax) :
    lServiceUdpIpAdd s ip port st =
      .ok (true, { st with services := st.services.set s { sv with bindaddr := sv.bindaddr ++ [⟨ip, port⟩] } }) := by
  unfold lServiceUdpIpAdd
  rw [bindSlot_run hsv, if_pos hfree, decide_eq_true hfree]

theorem lServiceUdpIpAdd_binds (h : lServiceUdpIpAdd s ip port st = .ok (r, st')) : BindsAt s port st st' := by
  intro sv hsv
  by_cases hfree : sv.bindaddr.length < serviceBindMax
  · rw [lServiceUdpIpAdd_run hsv hfree] at h
    cases h
    exact ⟨[ip], rfl⟩
  · unfold lServiceUdpIpAdd at h
    rw [bindSlot_run hsv, if_neg hfree] at h
    cases h
    exact BindsAt.of_services rfl sv hsv

theorem lServiceUdpDeviceAdd_binds (h : lServiceUdpDeviceAdd s d port st = .ok (r, st')) : BindsAt s port st st' := by
  have hloop : ∀ (ips : List Ip) (b : Bool) (st : Setup), ips.foldlM (fun result ip =>
      if utilIpValid ip then return (← lServiceUdpIpAdd s ip port) && result else pure result :
        Bool → Ip → SetupM Bool) b st = .ok (r, st') → BindsAt s port st st' := by
    intro ips
    induction ips with
    | nil =>
      intro b st h
      cases h
      exact .of_services rfl
    | cons ip ips ih =>
      intro b st h
      rw [List.foldlM_cons] at h
      obtain ⟨⟨b', st₁⟩, hip, hrest⟩ := except_bind_ok h
      refine BindsAt.trans ?_ (ih b' st₁ hrest)
      split_ifs at hip
      · obtain ⟨⟨b'', st₂⟩, hadd, hpure⟩ := except_bind_ok hip
        cases hpure
        exact lServiceUdpIpAdd_binds hadd
      · cases hip
        exact .of_services rfl
  exact hloop d.ip true st h

/-- Every slot that is filled gets the port. -/
theorem bindHost_binds (h : bindHost env s host port st = .ok (r, st')) : BindsAt s port st st' := by
  have hinit : BindsAt s port st { st with devices := deviceTable env st } := .of_services rfl
  unfold bindHost at h
  split_ifs at h
  · exact lServiceUdpIpAdd_binds h
  · cases haton : env.lib.inetAton host with
    | some ip =>
      rw [haton] at h
      exact lServiceUdpIpAdd_binds h
    | none =>
      rw [haton] at h
      cases heth : env.lib.etherAton host with
      | some eth =>
        rw [heth] at h
        obtain ⟨⟨o, st₁⟩, ho, hrest⟩ := except_bind_ok h
        rw [deviceSearchByEth_run] at ho
        obtain ⟨rfl, rfl⟩ := Prod.mk.inj (Except.ok.inj ho)
        refine hinit.trans ?_
        cases hfind : (deviceTable env st).find? (·.eth == eth) with
        | none =>
          rw [hfind] at hrest
          cases hrest
          exact .of_services rfl
        | some d =>
          rw [hfind] at hrest
          exact lServiceUdpDeviceAdd_binds hrest
      | none =>
        rw [heth] at h
        obtain ⟨⟨o, st₁⟩, ho, hrest⟩ := except_bind_ok h
        rw [deviceSearchByName_run] at ho
        obtain ⟨rfl, rfl⟩ := Prod.mk.inj (Except.ok.inj ho)
        refine hinit.trans ?_
        cases hfind : (deviceTable env st).find? (·.name == host) with
        | some d =>
          rw [hfind] at hrest
          exact lServiceUdpDeviceAdd_binds hrest
        | none =>
          rw [hfind] at hrest
          obtain ⟨⟨ip, st₂⟩, hip, hadd⟩ := except_bind_ok hrest
          refine BindsAt.trans ?_ (lServiceUdpIpAdd_binds hadd)
          cases hn : utilName2ip (Setup.conf { st with devices := deviceTable env st } env) env.os st.w host with
          | error f =>
            rw [hn] at hip
            cases hip
          | ok ip' =>
            rw [hn] at hip
            cases hip
            exact .of_services rfl

/-! ## The port that is bound -/

theorem toNat_ofInt (h : 0 ≤ n) (h' : n ≤ 65535) : ((UInt16.ofInt n).toNat : Int) = n := by
  unfold UInt16.ofInt
  rw [UInt16.toNat_ofNat']
  omega

/-- The port of a number that was checked. -/
theorem bindPort_checked (h : intText u = some n) (h0 : 0 ≤ n) (h1 : n ≤ 65535) :
    bindPort env (if n = 0 then [] else u) = some (UInt16.ofInt n) := by
  have hclamp : clampLong n = n := clampLong_of_fits (by omega) (by omega)
  have hget : strGetInt u = (n, true) := by
    unfold strGetInt
    rw [strtol_intText h, hclamp, int32_of_fits (by omega) (by omega)]
    rfl
  unfold bindPort
  split_ifs with hz
  · subst hz
    rfl
  · rw [hget]

theorem bindPort_number (h : (strGetInt u).2 = true) : bindPort env u = some (UInt16.ofInt (strGetInt u).1) := by
  unfold bindPort
  generalize strGetInt u = p at h ⊢
  obtain ⟨m, b⟩ := p
  cases h
  rfl

theorem bindPort_name (h : (strGetInt u).2 = false) : bindPort env u = env.getservbyname u := by
  unfold bindPort
  generalize strGetInt u = p at h ⊢
  obtain ⟨m, b⟩ := p
  cases h
  rfl

end

end Bootd
