import Bootd.Config.Devices
import Bootd.Config.Eval

/-!
# Devices cannot be bound by address

`service_link_add` goes on behind a word that is no device's name with

    if (!(str_get_eth(device, &eth)) || (util_name2ether(device, &eth))) return 0;

(src/service.c:147). `util_name2ether` returns 1 where it knows the address, and it
tries `str_get_eth` first: a word that is no address ends here by the first test, and
one that is an address by the second. `service_udp_add` tests its conversions the
other way round (src/service.c:200).

Counterexample: `device 2:0:0:0:0:9;` with a device that has this address
(`address_refused`).

* `deviceMeant`: the device that a word stands for.
* `device_address_iff`: the words that bind what they stand for.
-/
namespace Bootd

/-- The address that a word is, or that the host of this name has. -/
def etherMeant (env : SetupEnv) (st : Setup) (w : CStr) : Option Ether :=
  match utilName2ether (st.conf env) env.os st.w w with
  | .ok eth => eth
  | .error _ => none

/-- The device of that name; if there is none, the first one with that address. -/
def deviceMeant (env : SetupEnv) (st : Setup) (w : CStr) : Option Device :=
  match (deviceTable env st).find? (·.name == w) with
  | some d => some d
  | none => (etherMeant env st w).bind fun eth => (deviceTable env st).find? (·.eth == eth)

/-- The device that `w` stands for is bound and 1 returned; without one nothing is
bound and 0 returned. -/
def BindsMeant (env : SetupEnv) (st : Setup) (s : Nat) (sv : NetService) (w : CStr) : Prop :=
  serviceLinkAdd env s w st = match deviceMeant env st w with
    | some d => .ok (true, { st with
        devices := deviceTable env st
        services := st.services.set s { sv with device := sv.device ++ [d.name] } })
    | none => .ok (false, { st with devices := deviceTable env st })

section
variable {env : SetupEnv} {st : Setup} {s : Nat} {sv : NetService} {w : CStr} {d : Device}

theorem deviceMeant_mem (h : deviceMeant env st w = some d) :
    d ∈ deviceTable env st ∧ (d.name = w ∨ etherMeant env st w = some d.eth) := by
  unfold deviceMeant at h
  cases hname : (deviceTable env st).find? (·.name == w) with
  | some d' =>
    rw [hname] at h
    cases h
    exact ⟨List.mem_of_find?_eq_some hname, .inl (by simpa using List.find?_some hname)⟩
  | none =>
    rw [hname] at h
    obtain ⟨eth, heth, hfind⟩ := Option.bind_eq_some_iff.mp h
    have hd : d.eth = eth := by simpa using List.find?_some hfind
    exact ⟨List.mem_of_find?_eq_some hfind, .inr (heth.trans (congrArg some hd.symm))⟩

theorem deviceMeant_none (h : deviceMeant env st w = none) :
    ∀ d ∈ deviceTable env st, d.name ≠ w ∧ etherMeant env st w ≠ some d.eth := by
  intro d hd
  unfold deviceMeant at h
  cases hname : (deviceTable env st).find? (·.name == w) with
  | some d' =>
    rw [hname] at h
    cases h
  | none =>
    rw [hname] at h
    refine ⟨by simpa using List.find?_eq_none.mp hname d hd, fun heth => ?_⟩
    rw [heth] at h
    simpa using List.find?_eq_none.mp h d hd

/-- The words for all devices: only a table that is the one device meant will do. -/
theorem bindsMeant_all (hw : AllDevices w) (hsv : st.services[s]? = some sv)
    (hfree : sv.device.length < serviceBindMax) : BindsMeant env st s sv w ↔
      ∃ d, st.devices = [d] ∧ (d.name = w ∨ etherMeant env st w = some d.eth) := by
  have hlt := (List.getElem?_eq_some_iff.mp hsv).1
  unfold BindsMeant
  rw [serviceLinkAdd_all hw hsv]
  constructor
  · intro h
    cases hm : deviceMeant env st w with
    | none =>
      -- then nothing is bound, so there are no devices, and 1 is returned
      rw [hm] at h
      obtain ⟨hr, hst⟩ := Prod.mk.inj (Except.ok.inj h)
      have hset := congrArg (fun st => (st.services[s]?).map (·.device.length)) hst
      simp only [List.getElem?_set_self hlt, hsv, Option.map_some, bindDevices_length, List.length_map,
        Option.some.injEq] at hset
      have hroom := of_decide_eq_false hr
      omega
    | some d =>
      rw [hm] at h
      obtain ⟨hr, hst⟩ := Prod.mk.inj (Except.ok.inj h)
      have hset := congrArg (fun st => (st.services[s]?).map (·.device.length)) hst
      simp only [List.getElem?_set_self hlt, Option.map_some, bindDevices_length, List.length_map,
        List.length_append, List.length_singleton, Option.some.injEq] at hset
      have hroom := of_decide_eq_true hr
      obtain ⟨d', hds⟩ := List.length_eq_one_iff.mp (show st.devices.length = 1 by omega)
      obtain ⟨hmem, hmeant⟩ := deviceMeant_mem hm
      have htable : deviceTable env st = [d'] := by
        rw [deviceTable, hds]
        exact if_neg (List.cons_ne_nil _ _)
      rw [htable, List.mem_singleton] at hmem
      exact ⟨d, hmem ▸ hds, hmeant⟩
  · rintro ⟨d, hds, hmeant⟩
    have htable : deviceTable env st = st.devices := by
      rw [deviceTable, hds]
      exact if_neg (List.cons_ne_nil _ _)
    have hm : deviceMeant env st w = some d := by
      cases hm : deviceMeant env st w with
      | none =>
        obtain ⟨hn, heth⟩ := deviceMeant_none hm d (by rw [htable, hds]; exact List.mem_singleton_self d)
        exact absurd hmeant (not_or.mpr ⟨hn, heth⟩)
      | some d' =>
        have hd' := (deviceMeant_mem hm).1
        rw [htable, hds, List.mem_singleton] at hd'
        rw [hd']
    have hroom : st.devices.length ≤ serviceBindMax - sv.device.length := by
      rw [hds, List.length_singleton]
      omega
    simp only [hm, htable, decide_eq_true hroom]
    rw [hds, List.map_singleton, bindDevices_free hfree]

end

/-- **The words that bind what they stand for**: names of devices, and whatever stands
for no device. -/
theorem device_address_iff (env : SetupEnv) (st : Setup) (s : Nat) (sv : NetService) (w : CStr)
    (hsv : st.services[s]? = some sv) (hfree : sv.device.length < serviceBindMax) :
    BindsMeant env st s sv w ↔
      if AllDevices w then ∃ d, st.devices = [d] ∧ (d.name = w ∨ etherMeant env st w = some d.eth)
      else (∃ d ∈ deviceTable env st, d.name = w) ∨ ∀ d ∈ deviceTable env st, etherMeant env st w ≠ some d.eth := by
  by_cases hw : AllDevices w
  · rw [if_pos hw]
    exact bindsMeant_all hw hsv hfree
  · rw [if_neg hw]
    unfold BindsMeant
    rw [serviceLinkAdd_named hw]
    cases hname : (deviceTable env st).find? (·.name == w) with
    | some d =>
      have hm : deviceMeant env st w = some d := by rw [deviceMeant, hname]
      have hst : ({ st with devices := deviceTable env st } : Setup).services[s]? = some sv := hsv
      simp only [hm]
      rw [lServiceLinkDeviceAdd_run hst, decide_eq_true hfree, bindDevices_free hfree]
      have hd : d.name = w := by simpa using List.find?_some hname
      exact iff_of_true rfl (.inl ⟨d, List.mem_of_find?_eq_some hname, hd⟩)
    | none =>
      have hno : ¬∃ d ∈ deviceTable env st, d.name = w := by
        rintro ⟨d, hd, hn⟩
        exact List.find?_eq_none.mp hname d hd (beq_iff_eq.mpr hn)
      cases hm : deviceMeant env st w with
      | none => exact iff_of_true rfl (.inr fun d hd => (deviceMeant_none hm d hd).2)
      | some d =>
        obtain ⟨hd, hmeant⟩ := deviceMeant_mem hm
        have heth := hmeant.resolve_left fun hn => hno ⟨d, hd, hn⟩
        refine iff_of_false (fun h => Bool.false_ne_true (Prod.mk.inj (Except.ok.inj h)).1) ?_
        rintro (hn | hother)
        · exact hno hn
        · exact hother d hd heth

/-- A C library that can read the address of `eth0`. -/
def etherEnv : SetupEnv :=
  { plainEnv with lib := { plainConf with
      etherAton := fun w => if w = cstr "2:0:0:0:0:9" then some (plainEther 9) else none } }

/-- `eth0` can be bound by its name. -/
theorem device_address_eth0 :
    BindsMeant etherEnv plainSetup 0 (serviceNew (cstr "rarp") serviceRarp) (cstr "eth0") :=
  (device_address_iff etherEnv plainSetup 0 _ (cstr "eth0") rfl (by decide)).mpr
    (by rw [if_neg (by decide)]; exact .inl ⟨⟨cstr "eth0", plainEther 9, [9]⟩, .head _, rfl⟩)

/-- **Counterexample**: and not by its address. -/
theorem address_refused : ¬∀ (env : SetupEnv) (st : Setup) (s : Nat) (sv : NetService) (w : CStr),
    st.services[s]? = some sv → sv.device.length < serviceBindMax → ¬AllDevices w → BindsMeant env st s sv w := by
  intro h
  have hrun := h etherEnv plainSetup 0 (serviceNew (cstr "rarp") serviceRarp) (cstr "2:0:0:0:0:9") rfl
    (by decide) (by decide)
  unfold BindsMeant at hrun
  rw [serviceLinkAdd_named (by decide)] at hrun
  exact Bool.false_ne_true (Prod.mk.inj (Except.ok.inj hrun)).1

end Bootd
