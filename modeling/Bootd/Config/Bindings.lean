import Bootd.Config.Evaluated

/-!
# Binding services (`service.c:131-244`)

`Binding m`: a call that fills in devices and addresses at most. The names and
the ids of the services stay, and so does what a word stands for
(`strGetService_congr`); the hosts are not touched.

* `Binding.linkAdd`, `Binding.udpAdd`: the words of `device` and of `bind`.
* `bindKeyword`: which of the two a service knows.
-/
namespace Bootd

open Bootd.Core

/-- What the words for services depend on. -/
def svcKeys (svs : List NetService) : List (CStr × Nat) := svs.map fun sv => (sv.name, sv.id)

/-- The services' names and the hosts are as they were; a log file may be open. -/
structure KeepsHosts (st st' : Setup) : Prop where
  keys : svcKeys st'.services = svcKeys st.services
  w : st.w.OpensOwn st'.w
  accepted : st'.accepted = st.accepted

/-- A call that binds services at most. -/
def Binding {α : Type} (m : SetupM α) : Prop := ∀ st a st', m st = .ok (a, st') → KeepsHosts st st'

/-- The statement that the block of a service may have. -/
def bindKeyword (svs : List NetService) (e : ConfEntry) : Option Keyword :=
  (strGetService svs e.value 0).bind fun id =>
    if id &&& listenLink ≠ 0 then some kwDevice
    else if id &&& listenUdp ≠ 0 ∨ id &&& listenRpcUdp ≠ 0 then some kwBind
    else none

theorem svcKeys_set {svs : List NetService} {s : Nat} {sv sv' : NetService} (hsv : svs[s]? = some sv)
    (hn : sv'.name = sv.name) (hi : sv'.id = sv.id) : svcKeys (svs.set s sv') = svcKeys svs := by
  obtain ⟨hlt, rfl⟩ := List.getElem?_eq_some_iff.mp hsv
  have hkey : s < (svcKeys svs).length := by simpa [svcKeys] using hlt
  rw [svcKeys, List.map_set, hn, hi]
  simpa [svcKeys] using List.set_getElem_self hkey

theorem KeepsHosts.same {st st' : Setup} (hkeys : svcKeys st'.services = svcKeys st.services)
    (hw : st'.w = st.w)
    (hacc : st'.accepted = st.accepted) : KeepsHosts st st' := ⟨hkeys, hw ▸ .refl st.w, hacc⟩

theorem KeepsHosts.refl (st : Setup) : KeepsHosts st st := .same rfl rfl rfl

theorem KeepsHosts.trans {st st' st'' : Setup} (h : KeepsHosts st st') (h' : KeepsHosts st' st'') :
    KeepsHosts st st'' :=
  ⟨h'.keys.trans h.keys, h.w.trans h'.w, h'.accepted.trans h.accepted⟩

section
variable {α β : Type}

theorem Binding.pure (a : α) : Binding (pure a : SetupM α) := by
  intro st b st' h
  cases h
  exact .refl st

theorem Binding.get : Binding (get : SetupM Setup) := by
  intro st b st' h
  cases h
  exact .refl st

theorem Binding.throw (f : Fault) : Binding (throw f : SetupM α) := fun _ _ _ h => nomatch h

theorem Binding.lift (m : Except Fault α) : Binding (m : SetupM α) := by
  intro st b st' h
  cases m with
  | error f => cases h
  | ok a =>
    cases h
    exact .refl st

theorem Binding.bind {m : SetupM α} {f : α → SetupM β} (hm : Binding m) (hf : ∀ a, Binding (f a)) :
    Binding (m >>= f) := by
  intro st b st' h
  obtain ⟨⟨a, st₁⟩, h₁, h₂⟩ := except_bind_ok h
  exact (hm _ _ _ h₁).trans (hf a _ _ _ h₂)

/-- `f` is run on the state that it is given. -/
theorem Binding.onState {f : Setup → SetupM β} (hf : ∀ st b st', f st st = .ok (b, st') → KeepsHosts st st') :
    Binding (MonadState.get >>= f) := fun st b st' h => hf st b st' h

theorem Binding.deviceInit (env : SetupEnv) : Binding (deviceInit env) := by
  refine .onState fun st ds st' h => ?_
  split at h
  · cases h
    exact .same rfl rfl rfl
  · cases h
    exact .refl st

theorem Binding.bindSlot {s : Nat} {slots : NetService → Nat} {f : NetService → NetService}
    (hf : ∀ sv, (f sv).name = sv.name ∧ (f sv).id = sv.id) : Binding (bindSlot s slots f) := by
  refine .onState fun st b st' h => ?_
  cases hsv : st.services[s]? with
  | none =>
    rw [hsv] at h
    cases h
  | some sv =>
    rw [hsv] at h
    simp only at h
    split at h
    · cases h
      exact .same (svcKeys_set hsv (hf sv).1 (hf sv).2) rfl rfl
    · cases h
      exact .refl st

theorem Binding.linkDevice (s : Nat) (d : Device) : Binding (lServiceLinkDeviceAdd s d) :=
  .bindSlot fun _ => ⟨rfl, rfl⟩

theorem Binding.udpIp (s : Nat) (ip : Ip) (port : UInt16) : Binding (lServiceUdpIpAdd s ip port) :=
  .bindSlot fun _ => ⟨rfl, rfl⟩

/-- What has all parts of `service_link_add` and `service_udp_add` but the slots, has them. The
functions given the state look at the services nowhere. -/
structure SlotClosed (env : SetupEnv) (P : ∀ {α : Type}, SetupM α → Prop) : Prop where
  pure : ∀ {α : Type} (a : α), P (pure a)
  bind : ∀ {α β : Type} {m : SetupM α} {f : α → SetupM β}, P m → (∀ a, P (f a)) → P (m >>= f)
  lift : ∀ {α : Type} (x : Except Fault α), P (x : SetupM α)
  onState : ∀ {α : Type} {f : Setup → SetupM α}, (∀ st, P (f st)) →
    (∀ st svs, f { st with services := svs } = f st) → P (MonadState.get >>= f)
  deviceInit : P (deviceInit env)

section
variable {env : SetupEnv} {P : ∀ {α : Type}, SetupM α → Prop} {s : Nat}

theorem SlotClosed.foldlM (h : SlotClosed env P) {f : β → α → SetupM β} (hf : ∀ b a, P (f b a)) (as : List α)
    (b : β) : P (as.foldlM f b) := by
  induction as generalizing b with
  | nil => exact h.pure b
  | cons a as ih => exact h.bind (hf b a) ih

theorem SlotClosed.byName (h : SlotClosed env P) (name : CStr) : P (deviceSearchByName env name) :=
  h.bind h.deviceInit fun _ => h.pure _

theorem SlotClosed.byEth (h : SlotClosed env P) (eth : Ether) : P (deviceSearchByEth env eth) :=
  h.bind h.deviceInit fun _ => h.pure _

theorem SlotClosed.linkAdd (h : SlotClosed env P) (hdev : ∀ d, P (lServiceLinkDeviceAdd s d)) (w : CStr) :
    P (serviceLinkAdd env s w) := by
  unfold serviceLinkAdd
  split
  · exact h.onState (fun st => h.foldlM (fun b d => h.bind (hdev d) fun _ => h.pure _) _ _) fun _ _ => rfl
  · refine h.bind (h.byName w) fun d => ?_
    split
    · exact hdev _
    · split
      · exact h.pure _
      · refine h.onState (fun st => h.bind (h.lift _) fun o => ?_) fun _ _ => rfl
        split
        · exact h.pure _
        · refine h.bind (h.byEth _) fun d => ?_
          split
          · exact h.pure _
          · exact hdev _

theorem SlotClosed.udpAdd (h : SlotClosed env P) (hip : ∀ ip port, P (lServiceUdpIpAdd s ip port)) (w : CStr) :
    P (serviceUdpAdd env s w) := by
  have hdev : ∀ d port, P (lServiceUdpDeviceAdd s d port) := by
    intro d port
    refine h.foldlM (fun b ip => ?_) _ _
    split
    · exact h.bind (hip ip port) fun _ => h.pure _
    · exact h.pure _
  unfold serviceUdpAdd
  split
  · exact h.pure _
  · split
    · exact h.pure _
    · split
      · exact hip 0 _
      · split
        · exact hip _ _
        · split
          · refine h.bind (h.byEth _) fun d => ?_
            split
            · exact h.pure _
            · exact hdev _ _
          · refine h.bind (h.byName _) fun d => ?_
            split
            · exact hdev _ _
            · exact h.onState (fun st => h.bind (h.lift _) fun ip => hip ip _) fun _ _ => rfl

end

theorem Binding.closed (env : SetupEnv) : SlotClosed env Binding where
  pure := .pure
  bind := .bind
  lift := .lift
  onState hf _ := .onState fun st b st' h => hf st st b st' h
  deviceInit := .deviceInit env

theorem Binding.linkAdd (env : SetupEnv) (s : Nat) (w : CStr) : Binding (serviceLinkAdd env s w) :=
  (Binding.closed env).linkAdd (Binding.linkDevice s) w

theorem Binding.udpAdd (env : SetupEnv) (s : Nat) (w : CStr) : Binding (serviceUdpAdd env s w) :=
  (Binding.closed env).udpAdd (Binding.udpIp s) w

end

theorem strGetService_congr {svs svs' : List NetService} (h : svcKeys svs' = svcKeys svs) (w : CStr) (dst : Nat) :
    strGetService svs' w dst = strGetService svs w dst := by
  have hkeys : ∀ svs : List NetService, (serviceSearchByName svs w).map (dst ||| ·.id) =
      ((svcKeys svs).find? (·.1 == w)).map (dst ||| ·.2) := by
    intro svs
    rw [svcKeys, List.find?_map, Option.map_map]
    rfl
  unfold strGetService
  rw [hkeys, hkeys, h]

theorem readServices_congr {svs svs' : List NetService} (h : svcKeys svs' = svcKeys svs)
    (es : List ConfEntry) (dst : Nat) : readServices svs' es dst = readServices svs es dst := by
  unfold readServices
  congr 1
  funext dst w
  exact strGetService_congr h w dst

theorem serviceSearchById_congr {svs svs' : List NetService} (h : svcKeys svs' = svcKeys svs) (id : Nat) :
    serviceSearchById svs' id = serviceSearchById svs id := by
  have hkeys : ∀ svs : List NetService, serviceSearchById svs id = (svcKeys svs).findIdx? (·.2 == id) := by
    intro svs
    rw [svcKeys, List.findIdx?_map]
    rfl
  rw [hkeys, hkeys, h]

/-- The names of a mask are looked up by the ids. -/
theorem strService_congr {svs svs' : List NetService} (h : svcKeys svs' = svcKeys svs) :
    strService svs' = strService svs := by
  have hname : ∀ (svs : List NetService) (i : Nat), (svs[i]?).map (·.name) = ((svcKeys svs)[i]?).map (·.1) := by
    intro svs i
    rw [svcKeys, List.getElem?_map, Option.map_map]
    rfl
  have htext : ∀ (svs : List NetService) (j : Nat), bitText svs j =
      (((serviceSearchById svs j).bind fun i => (svs[i]?).map (·.name)).getD (decText j)) := by
    intro svs j
    unfold bitText
    cases serviceSearchById svs j with
    | none => rfl
    | some i => cases hi : svs[i]? <;> simp [hi]
  funext m
  unfold strService
  simp only [htext, hname, serviceSearchById_congr h, h]

theorem bindKeyword_congr {svs svs' : List NetService} (h : svcKeys svs' = svcKeys svs) (e : ConfEntry) :
    bindKeyword svs' e = bindKeyword svs e := by
  unfold bindKeyword
  rw [strGetService_congr h]

end Bootd
