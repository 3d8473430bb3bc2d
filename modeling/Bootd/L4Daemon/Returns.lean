import Bootd.L4Daemon.Track

/-!
# When the session and host functions return

The `_ok` lemmas say what a function has done if it returned, these when it
does. Ending a session never faults on the way (`Unlistened`), so what is left
is that the loops come to the end of the table, and that every session they
follow is still allocated when they get there.

* `hostSessionAdd_returns`: the chain ends in NULL, the listed sessions are
  allocated, and none of those that `host_session_add` ends is ended twice.
* `clone_returns`: a clone is made unless its name is too long or does not resolve.
* `clone_replaced`: what a boot request then ends for the clone.
-/
namespace Bootd

open Bootd.Core Bootd.Core.Exec

/-- The session pointer of `p` can be followed. -/
def World.OwnLive (w : World) (p : HostId) : Prop :=
  ∀ s, w.sessionOf p = some s → ∃ ses, w.live s = some ses

/-- `host_session_add` for `p` gets through. -/
def SweepSafe (c : Conf) (os : Os) (w : World) (p : HostId) : Prop :=
  ∃ ps, Chain.Path w.next w.gHosts ps none ∧ w.SessionsLive ps ∧ w.OwnLive p ∧
    ((w.replaced c os ps p).map Prod.snd).Nodup

section
variable {c : Conf} {os : Os} {w w' : World} {p : HostId} {s : SessId} {ps : List HostId}

@[simp] theorem returns_loadHost_bind {β : Type} {f : Host → M β} :
    Returns (loadHost p >>= f) w ↔ ∃ h, w.hosts[p]? = some h ∧ Returns (f h) w := by
  rw [returns_bind]
  simp only [loadHost_ok]
  constructor
  · rintro ⟨h, _, ⟨hh, rfl⟩, hr⟩
    exact ⟨h, hh, hr⟩
  · rintro ⟨h, hh, hr⟩
    exact ⟨h, w, ⟨hh, rfl⟩, hr⟩

@[simp] theorem returns_loadSession_bind {β : Type} {f : Session → M β} :
    Returns (loadSession s >>= f) w ↔ ∃ ses, w.live s = some ses ∧ Returns (f ses) w := by
  rw [returns_bind]
  simp only [loadSession_ok]
  constructor
  · rintro ⟨ses, _, ⟨hs, rfl⟩, hr⟩
    exact ⟨ses, hs, hr⟩
  · rintro ⟨ses, hs, hr⟩
    exact ⟨ses, w, ⟨hs, rfl⟩, hr⟩

/-! ## Sessions -/

/-- Code that follows the host's session pointer, if there is one. -/
theorem returns_ownSession {β : Type} {m : M β} {f : SessId → Session → M β} (hm : Returns m w)
    (hf : ∀ s ses, w.sessionOf p = some s → w.live s = some ses → Returns (f s ses) w) :
    Returns (do
      match (← loadHost p).session with
      | none => m
      | some s => do
        let ses ← loadSession s
        f s ses) w ↔ p < w.hosts.length ∧ w.OwnLive p := by
  rw [returns_loadHost_bind]
  refine ⟨fun ⟨h, hh, hr⟩ => ?_, fun ⟨hlt, hown⟩ => ?_⟩
  · refine ⟨(List.getElem?_eq_some_iff.mp hh).1, fun s hs => ?_⟩
    rw [sessionOf_eq hh] at hs
    simp only [hs, returns_loadSession_bind] at hr
    obtain ⟨ses, hl, -⟩ := hr
    exact ⟨ses, hl⟩
  · have hh : w.hosts[p]? = some w.hosts[p] := List.getElem?_eq_getElem hlt
    refine ⟨_, hh, ?_⟩
    cases hs : w.hosts[p].session with
    | none => exact hm
    | some s =>
      have hs' := (sessionOf_eq hh).trans hs
      obtain ⟨ses, hl⟩ := hown s hs'
      exact returns_loadSession_bind.mpr ⟨ses, hl, hf s ses hs' hl⟩

theorem hostSessionDelete_returns (hu : Unlistened w) :
    Returns (hostSessionDelete p) w ↔ p < w.hosts.length ∧ w.OwnLive p := by
  refine returns_ownSession (returns_pure _) fun s ses _ hl => ?_
  exact returns_bind.mpr ⟨(), w, hu.releaseFds hl, returns_modify _⟩

theorem hostSessionTimeout_returns (c : Conf) (os : Os) (hu : Unlistened w) :
    Returns (hostSessionTimeout c os p) w ↔ p < w.hosts.length ∧ w.OwnLive p := by
  refine returns_ownSession (returns_pure _) fun s ses hs hl => ?_
  split
  · obtain ⟨h, hh, -⟩ := sessionOf_some.mp hs
    refine (hostSessionDelete_returns hu).mpr ⟨(List.getElem?_eq_some_iff.mp hh).1, fun t ht => ?_⟩
    rw [hs] at ht; cases ht
    exact ⟨ses, hl⟩
  · exact returns_pure _

/-- A session that is not ended stays allocated. -/
theorem Ends.live_keep {es : List (HostId × SessId)} (he : Ends es w w') {ses : Session}
    (hl : w.live s = some ses) (hs : s ∉ es.map Prod.snd) : w'.live s = some ses := by
  rcases he.live_or s with e | ⟨-, q, hm⟩
  · rw [e]; exact hl
  · exact absurd (List.mem_map_of_mem hm) hs

/-- The loop over the rest of the chain, when the first host has been seen to. -/
theorem timeoutLoop_returns : ∀ {ps : List HostId} {n : Nat} {o : Option HostId}
    {w : World}, Unlistened w → Chain.Path w.next o ps none → ps.length ≤ n → w.SessionsLive ps →
    ((ps.filterMap (w.idle c os)).map Prod.snd).Nodup → Returns (timeoutLoop c os n o) w
  | [], n, o, w, _, hp, _, _, _ => by
    have hp : o = none := hp
    subst hp
    cases n <;> exact returns_pure _
  | p :: ps, 0, o, w, _, _, hn, _, _ => by simp at hn
  | p :: ps, n + 1, o, w, hu, hp, hn, hlive, hnd => by
    obtain ⟨rfl, q, hq, hp⟩ := hp
    obtain ⟨h, hh, rfl⟩ := Option.map_eq_some_iff.mp hq
    have hlt : p < w.hosts.length := (List.getElem?_eq_some_iff.mp hh).1
    have hown : w.OwnLive p := hlive p List.mem_cons_self
    obtain ⟨_, w₁, hr⟩ := (hostSessionTimeout_returns c os hu).mpr ⟨hlt, hown⟩
    obtain ⟨he, -⟩ := hostSessionTimeout_ok hr
    simp only [timeoutLoop, returns_bind]
    have hh₁ := he.frame.hosts p
    rw [hh] at hh₁
    refine ⟨_, w₁, hr, _, w₁, loadHost_ok.mpr ⟨hh₁, rfl⟩, ?_⟩
    -- the sessions of the hosts further on are none that was ended just now
    rw [List.filterMap_cons] at hnd
    have hfresh : ∀ q ∈ ps, ∀ t ses, w.sessionOf q = some t → w.live t = some ses →
        t ∉ ((w.idle c os p).toList.map Prod.snd) := by
      intro q hq t ses hqt hl hm
      cases hi : w.idle c os p with
      | none => rw [hi] at hm; cases hm
      | some x =>
        rw [hi] at hm hnd
        have hx : t = x.2 := List.mem_singleton.mp hm
        obtain ⟨-, -, ses', hl', hexp⟩ := idle_some hi
        rw [← hx, hl] at hl'; cases hl'
        have hqi : w.idle c os q = some (q, t) := by rw [idle_eq hqt hl, if_pos hexp]
        refine (List.nodup_cons.mp hnd).1 ?_
        rw [← hx]
        exact List.mem_map_of_mem (f := Prod.snd) (List.mem_filterMap.mpr ⟨q, hq, hqi⟩)
    have hses : ∀ q ∈ ps, w₁.sessionOf q = w.sessionOf q := by
      intro q hq
      rcases he.sessionOf_or q with e | ⟨-, t, ht, hm⟩
      · exact e
      · obtain ⟨ses, hl⟩ := hlive q (List.mem_cons_of_mem _ hq) t ht
        exact absurd (List.mem_map_of_mem (f := Prod.snd) hm) (hfresh q hq t ses ht hl)
    have hlive₁ : ∀ q ∈ ps, ∀ t, w.sessionOf q = some t → ∃ ses, w.live t = some ses ∧
        w₁.live t = some ses := by
      intro q hq t ht
      obtain ⟨ses, hl⟩ := hlive q (List.mem_cons_of_mem _ hq) t ht
      exact ⟨ses, hl, he.live_keep hl (hfresh q hq t ses ht hl)⟩
    have hidle : ps.filterMap (w₁.idle c os) = ps.filterMap (w.idle c os) := by
      refine List.filterMap_congr fun q hq => ?_
      unfold World.idle
      rw [hses q hq]
      cases ht : w.sessionOf q with
      | none => rfl
      | some t =>
        obtain ⟨ses, hl, hl₁⟩ := hlive₁ q hq t ht
        rw [Option.bind_some, Option.bind_some, hl, hl₁]
    obtain ⟨-, hlis, -, hc⟩ := hu.ends he
    refine timeoutLoop_returns (hc.unlistened hlis hu) (hp.congr fun a _ => he.frame.next a)
      (Nat.le_of_succ_le_succ hn) (fun q hq t ht => ?_) ?_
    · rw [hses q hq] at ht
      obtain ⟨ses, -, hl₁⟩ := hlive₁ q hq t ht
      exact ⟨ses, hl₁⟩
    · rw [hidle]
      split at hnd
      · exact hnd
      · exact (List.nodup_cons.mp hnd).2

theorem hostSessionAdd_returns (c : Conf) (os : Os) (p : HostId) (service : Nat) (sid : Int)
    (hu : Unlistened w) :
    Returns (hostSessionAdd c os p service sid) w ↔ p < w.hosts.length ∧ SweepSafe c os w p := by
  refine ⟨fun ⟨b, w', hr⟩ => ?_, fun ⟨hlt, ps, hpath, hlive, hown, hnd⟩ => ?_⟩
  · obtain ⟨ps, w₁, hpath, hlive, he, hlt, -⟩ := hostSessionAdd_ok hr
    refine ⟨hlt, ps, hpath, hlive, fun s hs => ?_, he.nodup⟩
    -- it is among the sessions that end, so it was there
    by_cases hi : p ∈ ps ∧ w.idle c os p ≠ none
    · exact hlive p hi.1 s hs
    · have hm : (p, s) ∈ w.replaced c os ps p := by
        rw [World.replaced, if_neg hi, hs]
        exact List.mem_append_right _ (List.mem_singleton.mpr rfl)
      exact (he.mem hm).2.1
  · have hnd' := hnd
    rw [World.replaced, List.map_append, List.nodup_append] at hnd'
    obtain ⟨_, w₁, hr⟩ := timeoutLoop_returns hu hpath (path_length_le hpath) hlive hnd'.1
    obtain ⟨qs, hqs, he, -⟩ := timeoutLoop_ok hr
    obtain rfl := hqs.unique hpath
    obtain ⟨-, hlis, -, hc⟩ := hu.ends he
    have hown₁ : w₁.OwnLive p := by
      intro s hs
      have hs' : w.sessionOf p = some s := by
        rcases he.sessionOf_or p with e | ⟨e, -⟩
        · rw [← e]; exact hs
        · rw [hs] at e; cases e
      obtain ⟨ses, hl⟩ := hown s hs'
      refine ⟨ses, he.live_keep hl fun hm => ?_⟩
      have hi : ¬(p ∈ qs ∧ w.idle c os p ≠ none) := by
        intro hi
        obtain ⟨x, hx⟩ := Option.ne_none_iff_exists'.mp hi.2
        have hmem := List.mem_filterMap.mpr ⟨p, hi.1, hx⟩
        have hxp : x = (p, x.2) := Prod.ext (idle_some hx).1 rfl
        rw [hxp] at hmem
        rw [(he.mem hmem).2.2.1] at hs
        cases hs
      rw [if_neg hi, hs'] at hnd'
      exact hnd'.2.2 s hm s (List.mem_singleton.mpr rfl) rfl
    obtain ⟨_, w₂, hr₂⟩ := (hostSessionDelete_returns (p := p) (hc.unlistened hlis hu)).mpr
      ⟨by rw [he.frame.length]; exact hlt, hown₁⟩
    simp only [hostSessionAdd, utilHostSessionTimeoutAll, returns_bind]
    refine ⟨_, w₁, hr, _, w₂, hr₂, w₂, w₂, rfl, ?_⟩
    split
    · exact ⟨true, _, rfl⟩
    · exact returns_pure _

theorem openFile_returns (os : Os) (path : Option CStr) {ses : Session} (hs : w.sessionOf p = some s)
    (hl : w.live s = some ses) : Returns (openFile os p path) w := by
  simp only [openFile, returns_get_bind, hs, returns_loadSession_bind]
  refine ⟨ses, hl, ?_⟩
  cases os.openf path <;> exact ⟨_, _, rfl⟩

theorem hostSessionCheck_returns (os : Os) (p : HostId) (service : Nat) (sid : Int) :
    Returns (hostSessionCheck os p service sid) w ↔ p < w.hosts.length ∧ w.OwnLive p := by
  refine returns_ownSession (returns_pure _) fun s ses _ _ => ?_
  split
  · exact returns_pure _
  · split
    · exact returns_pure _
    · exact ⟨_, _, rfl⟩

end

/-! ## Clones -/

/-- The name a clone for the machine `eth` gets. -/
def cloneName (c : Conf) (os : Os) (eth : Ether) : CStr :=
  if c.cResolveEther then (os.etherNtohost eth).getD (c.etherNtoa eth) else c.etherNtoa eth

/-- The name that the database of the system has for the machine `eth` fits, or the store behind `name` goes
unnoticed. -/
def NameFits (c : Conf) (os : Os) (eth : Ether) : Prop :=
  c.cResolveEther = true → ∀ n, os.etherNtohost eth = some n → n.length < nameSize ∨ os.pastStore = true

instance (c : Conf) (os : Os) (eth : Ether) : Decidable (NameFits c os eth) :=
  decidable_of_iff (c.cResolveEther = true →
    ((os.etherNtohost eth).all fun n => n.length < nameSize ∨ os.pastStore = true) = true) (by
      unfold NameFits
      cases os.etherNtohost eth <;> simp)

/-- `util_name2ip` finds an address for `name`. -/
def NameResolves (c : Conf) (os : Os) (w : World) (name : CStr) : Prop :=
  c.inetAton name ≠ none ∨
    (∃ p host, utilName2host w name = .ok (some p) ∧ w.hosts[p]? = some host ∧
      utilIpValid host.ip = true) ∨
    c.cResolveIp = true ∧ ∃ ip, os.gethostbyname name = some (some ip)

/-- `host_add` lists the clone for the machine `eth`. -/
def CloneListed (c : Conf) (os : Os) (w : World) (eth : Ether) : Prop :=
  utilEtherValid eth = true ∧ utilName2host w (cloneName c os eth) = .ok none

/-- What the test says of host `p`. -/
def hostHit (w : World) (test : Host → Except Fault Bool) (p : HostId) : Bool :=
  match (w.hosts[p]?).map test with
  | some (.ok b) => b
  | _ => false

section
variable {c : Conf} {os : Os} {w w₁ : World} {h t : HostId} {L : List HostId} {eth : Ether}
  {tmpl g : Host} {name : CStr} {b : Bool} {test : Host → Except Fault Bool}

/-- A record that is not linked in yet is not looked at. -/
theorem hostFind_allocHost (hpath : Chain.Path w.next w.gHosts L none)
    (htest : ∀ p ∈ L, ∀ host, w.hosts[p]? = some host → ∃ b, test host = .ok b) :
    hostFind (w.allocHost g) test = hostFind w test := by
  have hlt := path_lt hpath
  have htest' : ∀ p ∈ L, ∀ host, w.hosts[p]? = some host → test host = .ok (hostHit w test p) := by
    intro p hp host hh
    obtain ⟨b, hb⟩ := htest p hp host hh
    simp only [hostHit, hh, hb, Option.map_some]
  rw [hostFind_table hpath htest']
  refine hostFind_table (w := w.allocHost g) ?_ fun p hp host hh => ?_
  · exact hpath.congr fun a ha => next_allocHost g (hlt a ha)
  · rw [allocHost_old g (hlt p hp)] at hh
    exact htest' p hp host hh

theorem hostNamed_complete (hok : HostsOk w L) {p : HostId} (hp : p ∈ L) {host : Host}
    (hh : w.hosts[p]? = some host) : ∃ n, host.name = some n ∧
      ∀ name, hostNamed name host = .ok (strcasecmp name n) := by
  obtain ⟨n, hn⟩ := Option.ne_none_iff_exists'.mp (hok.complete p hp host hh).name
  refine ⟨n, hn, fun name => ?_⟩
  rw [hostNamed, hn]

/-- Looking up a name in a table of complete records that ends. -/
theorem utilName2host_run (hok : HostsOk w L) (hpath : Chain.Path w.next w.gHosts L none)
    (name : CStr) : ∃ o, utilName2host w name = .ok o ∧ (∀ p, o = some p → p ∈ L) ∧
      (o = none ↔ ∀ a ∈ L, ¬w.NamedLike name a) := by
  classical
  let hit (p : HostId) : Bool := decide (w.NamedLike name p)
  have htest : ∀ p ∈ L, ∀ host, w.hosts[p]? = some host → hostNamed name host = .ok (hit p) := by
    intro p hp host hh
    obtain ⟨n, hn, hnamed⟩ := hostNamed_complete hok hp hh
    rw [hnamed]
    congr 1
    rw [Bool.eq_iff_iff, decide_eq_true_iff]
    constructor
    · exact fun hc => ⟨host, n, hh, hn, hc⟩
    · intro ⟨host', n', hh', hn', hc⟩
      rw [hh] at hh'; cases hh'
      rw [hn] at hn'; cases hn'
      exact hc
  refine ⟨L.find? hit, hostFind_table hpath htest, fun p hp => List.mem_of_find?_eq_some hp, ?_⟩
  simp only [List.find?_eq_none, hit, decide_eq_true_eq]

theorem hostByName_allocHost (hok : HostsOk w L) (hpath : Chain.Path w.next w.gHosts L none) :
    hostByName (w.allocHost g) name = hostByName w name := by
  have hfind : utilName2host (w.allocHost g) name = utilName2host w name :=
    hostFind_allocHost hpath fun p hp host hh => by
      obtain ⟨n, -, hnamed⟩ := hostNamed_complete hok hp hh
      exact ⟨_, hnamed name⟩
  obtain ⟨o, ho, hmem, -⟩ := utilName2host_run hok hpath name
  unfold hostByName
  rw [hfind, ho]
  cases o with
  | none => rfl
  | some p =>
    show Except.ok _ = Except.ok _
    rw [allocHost_old g (path_lt hpath p (hmem p rfl))]

/-- `util_name2ip` exits unless the name resolves. -/
theorem utilName2ip_iff (hok : HostsOk w L) (hpath : Chain.Path w.next w.gHosts L none) :
    (∃ ip, utilName2ip c os (w.allocHost g) name = .ok ip) ↔ NameResolves c os w name := by
  obtain ⟨o, ho, hmem, -⟩ := utilName2host_run hok hpath name
  unfold utilName2ip NameResolves
  rw [hostByName_allocHost hok hpath]
  cases ha : c.inetAton name with
  | some ip => exact iff_of_true ⟨ip, rfl⟩ (.inl (by simp))
  | none =>
    simp only [ne_eq, not_true_eq_false, false_or]
    have hby : hostByName w name = .ok (o.bind fun p => w.hosts[p]?) := by
      unfold hostByName
      rw [ho]
      cases o <;> rfl
    have hres : (∃ p host, utilName2host w name = .ok (some p) ∧ w.hosts[p]? = some host ∧
        utilIpValid host.ip = true) ↔
        ∃ host, (o.bind fun p => w.hosts[p]?).filter (fun h => utilIpValid h.ip) = some host := by
      rw [ho]
      simp only [Except.ok.injEq, Option.filter_eq_some_iff, Option.bind_eq_some_iff]
      constructor
      · rintro ⟨p, host, hp, hh, hv⟩
        exact ⟨host, ⟨p, hp, hh⟩, hv⟩
      · rintro ⟨host, ⟨p, hp, hh⟩, hv⟩
        exact ⟨p, host, hp, hh, hv⟩
    rw [hres, hby, show (.ok (o.bind fun p => w.hosts[p]?) : Except Fault _) = pure _ from rfl, pure_bind]
    cases (o.bind fun p => w.hosts[p]?).filter (fun h => utilIpValid h.ip) with
    | some host => exact iff_of_true ⟨host.ip, rfl⟩ (.inl ⟨host, rfl⟩)
    | none =>
      cases hc : c.cResolveIp with
      | false => simp
      | true =>
        simp only [reduceCtorEq, exists_false, false_or, true_and, Bool.true_eq_false, if_false]
        cases hg : os.gethostbyname name with
        | none => simp
        | some r => cases r <;> simp

theorem hostTail_run : ∀ {ps : List HostId} {n : Nat} {p : HostId},
    Chain.Path w.next (some p) ps none → ps.length ≤ n →
    (∀ a ∈ ps, ∀ host, w.hosts[a]? = some host → ∃ b, hostNamed name host = .ok b) →
    ∃ o, hostTail w name n p = .ok o
  | [], n, p, hp, _, _ => by cases hp
  | a :: ps, 0, p, _, hn, _ => by simp at hn
  | a :: ps, n + 1, p, hp, hn, hnames => by
    obtain ⟨e, q, hq, hp⟩ := hp
    cases e
    obtain ⟨host, hh, rfl⟩ := Option.map_eq_some_iff.mp hq
    obtain ⟨b, hb⟩ := hnames a List.mem_cons_self host hh
    simp only [hostTail, hh, hb]
    cases b with
    | true => exact ⟨none, rfl⟩
    | false =>
      cases hnx : host.next with
      | none => exact ⟨some a, rfl⟩
      | some q =>
        rw [hnx] at hp
        exact hostTail_run hp (Nat.le_of_succ_le_succ hn)
          fun a ha => hnames a (List.mem_cons_of_mem _ ha)

theorem hostInsert_returns (hok : HostsOk w L) (hpath : Chain.Path w.next w.gHosts L none) :
    Returns (hostInsert w.hosts.length name) (w.allocHost g) := by
  have hlt := path_lt hpath
  simp only [hostInsert, returns_get_bind, World.allocHost_gHosts]
  cases hg : w.gHosts with
  | none => exact ⟨true, _, rfl⟩
  | some q =>
    have hpath' : Chain.Path (w.allocHost g).next (some q) L none := by
      rw [← hg]
      exact hpath.congr fun a ha => next_allocHost g (hlt a ha)
    obtain ⟨o, ho⟩ := hostTail_run hpath' (path_length_le (w := w.allocHost g) hpath')
      fun a ha host hh => by
        rw [allocHost_old g (hlt a ha)] at hh
        obtain ⟨n, -, hnamed⟩ := hostNamed_complete hok ha hh
        exact ⟨_, hnamed name⟩
    simp only [returns_liftE_bind]
    refine ⟨o, ho, ?_⟩
    cases o with
    | none => exact returns_pure _
    | some t => exact ⟨true, _, rfl⟩

theorem utilEther2name_unknown (h : utilEther2host w eth = .ok none) : utilEther2name c os w eth =
    if NameFits c os eth then .ok (cloneName c os eth) else .error .overrun := by
  unfold utilEther2name cloneName
  rw [h]
  cases hres : c.cResolveEther with
  | false => simp [bind, Except.bind, NameFits, hres]
  | true => cases hton : os.etherNtohost eth <;> simp [bind, Except.bind, NameFits, hres, hton]

/-- A clone gets its name from the resolver. -/
theorem clone_name (hpath : Chain.Path w.next w.gHosts L none) (hnone : utilEther2host w eth = .ok none)
    (hv : utilEtherValid eth = true) :
    hostName c os (w.allocHost (cloneOf tmpl none (some eth) none)) (cloneOf tmpl none (some eth) none) =
      if NameFits c os eth then .ok (some (cloneName c os eth)) else .error .overrun := by
  have hlook : utilEther2host (w.allocHost (cloneOf tmpl none (some eth) none)) eth = .ok none := by
    rw [← hnone]
    exact hostFind_allocHost hpath fun _ _ _ _ => ⟨_, rfl⟩
  show (if utilEtherValid eth then some <$> utilEther2name c os _ eth else .ok none) = _
  rw [if_pos hv, utilEther2name_unknown hlook]
  split <;> rfl

/-- The files of a clone have their paths and their names. -/
theorem clone_files (hok : HostsOk w L) (ht : t ∈ L) (htm : w.hosts[t]? = some tmpl) :
    ¬∃ f ∈ tmpl.files, f.path = none ∨ f.name = none := by
  rintro ⟨f, hf, hno | hno⟩
  · exact ((hok.complete t ht tmpl htm).files f hf).1 hno
  · exact ((hok.complete t ht tmpl htm).files f hf).2.1 hno

/-- Completing a clone: it gets its name from the resolver, and its address. -/
theorem clone_complete (hok : HostsOk w L) (ht : t ∈ L) (htm : w.hosts[t]? = some tmpl)
    (hnone : utilEther2host w eth = .ok none) (hv : utilEtherValid eth = true) :
    (TextsFit c tmpl.service tmpl.files →
      ((∃ r, hostComplete c os (w.allocHost (cloneOf tmpl none (some eth) none))
        (cloneOf tmpl none (some eth) none) = .ok r) ↔
          NameFits c os eth ∧ NameResolves c os w (cloneName c os eth))) ∧
      ∀ h' b, hostComplete c os (w.allocHost (cloneOf tmpl none (some eth) none))
        (cloneOf tmpl none (some eth) none) = .ok (h', b) → b = true ∧
          h'.name = some (cloneName c os eth) := by
  obtain ⟨ps, hpath, -⟩ := hostFind_none hnone
  obtain rfl := hok.lasso.eq_of_path hpath
  let g := cloneOf tmpl none (some eth) none
  have hname : hostName c os (w.allocHost g) g =
      if NameFits c os eth then .ok (some (cloneName c os eth)) else .error .overrun :=
    clone_name hpath hnone hv
  by_cases hfits : NameFits c os eth
  swap
  · -- the name ends the daemon
    have hstop : hostComplete c os (w.allocHost g) g = .error .overrun := by
      unfold hostComplete
      rw [hname, if_neg hfits]
      rfl
    simp [g, hstop, hfits]
  rw [if_pos hfits] at hname
  have heth : hostEther c os (w.allocHost g) g (cloneName c os eth) = .ok (some eth) := if_pos hv
  have hip : hostIp c os (w.allocHost g) g (cloneName c os eth) =
      utilName2ip c os (w.allocHost g) (cloneName c os eth) := rfl
  have hmask : g.mask = tmpl.service := if_neg (hok.complete t ht tmpl htm).service
  have hnamed : ¬∃ f ∈ g.files, f.path = none ∨ f.name = none :=
    show ¬∃ f ∈ tmpl.files, f.path = none ∨ f.name = none from clone_files hok ht htm
  rw [and_iff_right hfits, ← utilName2ip_iff (g := g) hok hpath]
  cases hres : utilName2ip c os (w.allocHost g) (cloneName c os eth) with
  | error e =>
    have hstop : hostComplete c os (w.allocHost g) g = .error e := by
      unfold hostComplete
      rw [hname]
      simp only [bind, Except.bind, hip, hres]
    simp [g, hstop]
  | ok ip =>
    have hcomp := hostComplete_addressed hname (hip.trans hres) heth
    have hmasked : hostMasked g (cloneName c os eth) ip eth = .ok ({ g with
        name := some (cloneName c os eth), ip := ip, eth := eth, service := g.mask
        files := g.files.map (File.masked g.mask) }, true) := by
      unfold hostMasked filesMasked
      rw [if_neg hnamed]
      rfl
    rw [hmasked, hmask] at hcomp
    constructor
    · intro hfit
      have hfit' : TextsFit c tmpl.service g.files := hfit
      rw [if_pos hfit'] at hcomp
      exact iff_of_true ⟨_, hcomp⟩ ⟨ip, rfl⟩
    · intro h' b hc
      rw [hcomp] at hc
      split at hc
      · cases hc
        exact ⟨rfl, rfl⟩
      · cases hc

/-- A record that can be completed can be added. -/
theorem addNew_returns (hok : HostsOk w L) (hpath : Chain.Path w.next w.gHosts L none) :
    Returns (hostAddNew c os g) w ↔ ∃ r, hostComplete c os (w.allocHost g) g = .ok r := by
  refine ⟨fun ⟨⟨h, b⟩, w', hr⟩ => ?_, fun ⟨⟨h', complete⟩, hc⟩ => ?_⟩
  · obtain ⟨h', complete, hc, -⟩ := hostAddNew_ok hok.lasso hr
    exact ⟨_, hc⟩
  · have hadd : Returns (hostAdd c os w.hosts.length) (w.allocHost g) := by
      simp only [hostAdd, returns_loadHost_bind, returns_get_bind, returns_liftE_bind,
        returns_modify_bind]
      refine ⟨_, allocHost_new w _, _, hc, ?_⟩
      rw [setHost_allocHost]
      cases complete with
      | false => exact returns_pure _
      | true =>
        cases h'.name with
        | none => exact returns_pure _
        | some n => exact hostInsert_returns hok hpath
    obtain ⟨b, w', hr⟩ := hadd
    exact returns_bind.mpr ⟨_, _, hostAlloc_ok.mpr ⟨rfl, rfl⟩,
      returns_bind.mpr ⟨b, w', hr, returns_pure _⟩⟩

/-- **Whether a clone can be made.** -/
theorem clone_returns (os : Os) (hok : HostsOk w L) (ht : t ∈ L) (htm : w.hosts[t]? = some tmpl)
    (hfit : TextsFit c tmpl.service tmpl.files) (hnone : utilEther2host w eth = .ok none) :
    Returns (hostAddNew c os (cloneOf tmpl none (some eth) none)) w ↔
      (utilEtherValid eth = true → NameFits c os eth ∧ NameResolves c os w (cloneName c os eth)) := by
  obtain ⟨ps, hpath, -⟩ := hostFind_none hnone
  obtain rfl := hok.lasso.eq_of_path hpath
  rw [addNew_returns hok hpath]
  by_cases hv : utilEtherValid eth = true
  · rw [(clone_complete hok ht htm hnone hv).1 hfit]
    exact ⟨fun h _ => h, fun h => h hv⟩
  · refine iff_of_true ⟨_, hostComplete_blank c os rfl rfl ?_⟩ fun h => absurd h hv
    exact eq_false_of_ne_true hv

/-- Whether the clone that was made is listed. -/
theorem clone_listed (hok : HostsOk w L) (ht : t ∈ L) (htm : w.hosts[t]? = some tmpl)
    (hnone : utilEther2host w eth = .ok none)
    (hadd : hostAddNew c os (cloneOf tmpl none (some eth) none) w = .ok (h, b) w₁) :
    b = true ↔ CloneListed c os w eth := by
  obtain ⟨ps, hpath, -⟩ := hostFind_none hnone
  obtain rfl := hok.lasso.eq_of_path hpath
  obtain ⟨h', complete, hc, -, -, -, hcase⟩ := hostAddNew_ok hok.lasso hadd
  by_cases hv : utilEtherValid eth = true
  · obtain ⟨rfl, hname⟩ := (clone_complete hok ht htm hnone hv).2 h' complete hc
    obtain ⟨o, ho, -, hnil⟩ := utilName2host_run hok hpath (cloneName c os eth)
    rw [CloneListed, ho]
    rcases hcase with ⟨rfl, -, -, hlike⟩ | ⟨rfl, -, -, -, n, hn, hno⟩
    · obtain ⟨a, ha, hl⟩ := hlike rfl _ hname
      refine iff_of_false (by simp) fun hcl => ?_
      exact hnil.mp (Except.ok.inj hcl.2) a ha hl
    · rw [hname] at hn; cases hn
      exact iff_of_true rfl ⟨hv, congrArg _ (hnil.mpr hno)⟩
  · have hblank := hostComplete_blank c os
      (w := w.allocHost (cloneOf tmpl none (some eth) none)) (h := cloneOf tmpl none (some eth) none)
      rfl rfl (eq_false_of_ne_true hv)
    rw [hblank] at hc
    cases hc
    refine iff_of_false ?_ fun hcl => hv hcl.1
    rcases hcase with ⟨rfl, -⟩ | ⟨-, hcm, -⟩
    · simp
    · cases hcm

/-- The table with a clone still ends in NULL. -/
theorem clone_path (hok : HostsOk w L) (ht : t ∈ L) (htm : w.hosts[t]? = some tmpl)
    (hpath : Chain.Path w.next w.gHosts L none)
    (hadd : hostAddNew c os (cloneOf tmpl none (some eth) none) w = .ok (h, b) w₁) :
    (∃ ps, Chain.Path w₁.next w₁.gHosts ps none) ↔ b = false ∨ tmpl.next = none := by
  obtain ⟨-, -, hok', -⟩ := clone_ok hok ht htm hadd
  obtain ⟨h', complete, hc, rfl, -, -, hcase⟩ := hostAddNew_ok hok.lasso hadd
  have hnext : h'.next = tmpl.next := (hostComplete_ok hc).1
  rcases hcase with ⟨rfl, hg, hnx, -⟩ | ⟨rfl, -, -, hpath₁, -⟩
  · refine iff_of_true ⟨L, ?_⟩ (.inl rfl)
    rw [hg]
    exact hpath.congr fun a ha => hnx a (path_lt hpath a ha)
  · rw [hnext] at hpath₁
    refine ⟨fun ⟨ps, hps⟩ => ?_, fun hn => ?_⟩
    · have hL := hok'.lasso.eq_of_path hps
      rw [if_pos rfl] at hL
      rw [← hL] at hps
      exact .inr (hpath₁.end_unique hps)
    · have hn := hn.resolve_left (by simp)
      rw [hn] at hpath₁
      exact ⟨_, hpath₁⟩

/-- `host_session_add` gets through for a clone: it would for the template, whose
session the clone shares, that session has not expired, and the table with the
clone still ends. -/
theorem clone_sweepSafe (hok : HostsOk w L) (ht : t ∈ L) (htm : w.hosts[t]? = some tmpl)
    (hpath : Chain.Path w.next w.gHosts L none)
    (hadd : hostAddNew c os (cloneOf tmpl none (some eth) none) w = .ok (h, b) w₁) :
    SweepSafe c os w₁ h ↔
      SweepSafe c os w t ∧ w.idle c os t = none ∧ (b = false ∨ tmpl.next = none) := by
  rw [← clone_path hok ht htm hpath hadd]
  obtain ⟨-, hf, hok', -⟩ := clone_ok hok ht htm hadd
  obtain ⟨-, -, hsess⟩ := clone_idle (c := c) hok ht htm hadd
  have hlive : ∀ s, w₁.live s = w.live s := fun s => by rw [World.live, hf.sessions]; rfl
  have hold : ∀ q ∈ L, w₁.sessionOf q = w.sessionOf q := fun q hq => hf.sessionOf (path_lt hpath q hq)
  constructor
  · rintro ⟨ps, hps, hl, hown, hnd⟩
    obtain rfl := hok'.lasso.eq_of_path hps
    have hfresh := clone_fresh hok ht htm hadd hnd
    rw [clone_replaced hok ht htm hadd hfresh] at hnd
    refine ⟨⟨L, hpath, fun q hq s hs => ?_, fun s hs => ?_, hnd⟩, hfresh, _, hps⟩
    · rw [← hlive]
      refine hl q ?_ s ((hold q hq).trans hs)
      split
      · exact List.mem_append_left _ hq
      · exact hq
    · rw [← hlive]
      exact hown s (hsess.trans hs)
  · rintro ⟨⟨ps, hps, hl, hown, hnd⟩, hfresh, qs, hqs⟩
    obtain rfl := hok.lasso.eq_of_path hps
    have hqs' := hqs
    obtain rfl := hok'.lasso.eq_of_path hqs
    have hown₁ : w₁.OwnLive h := fun s hs => by
      rw [hlive]
      exact hown s (hsess.symm.trans hs)
    refine ⟨_, hqs', fun q hq s hs => ?_, hown₁, ?_⟩
    · have hq : q ∈ L ∨ q = h := by
        split at hq
        · rcases List.mem_append.mp hq with hq | hq
          · exact .inl hq
          · exact .inr (List.mem_singleton.mp hq)
        · exact .inl hq
      rcases hq with hq | rfl
      · rw [hlive]
        exact hl q hq s ((hold q hq).symm.trans hs)
      · exact hown₁ s hs
    · rw [clone_replaced hok ht htm hadd hfresh]
      exact hnd

end
end Bootd
