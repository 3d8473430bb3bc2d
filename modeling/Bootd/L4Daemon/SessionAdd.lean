import Bootd.L4Daemon.Returns

/-!
# A new session costs nobody else theirs (`host.c:188-247`, `util.c:260-267`)

`host_session_add` sweeps the whole table, ends every session that was idle for too
long and the host's own, and then compares `g_n_sessions` with the limit. Every
session that ends is counted off and every one that is created is counted, so the
counter still is the number of sessions in the table when it is compared.

* `SessionsCounted`: the table and its counter, in the states that a table of
  configured hosts reaches.
* `SessionsCounted.ends`, `SessionsCounted.start`: ending and creating sessions keeps it.
* `daemon_counted`: so it holds in every run in which no host is cloned.
* `session_add_counted`: what `host_session_add` does to such a table.
-/
namespace Bootd

open Bootd.Core Bootd.Core.Exec

/-- The listed hosts that have a session. -/
def World.holders (w : World) (L : List HostId) : List HostId := L.filter fun p => (w.sessionOf p).isSome

/-- The host has a session, and it was idle for at most `c_session_timeout`. -/
def World.current (w : World) (c : Conf) (now : Int) (p : HostId) : Bool :=
  ((w.sessionOf p).bind w.live).any fun ses => decide (now - ses.atime ≤ c.cSessionTimeout)

/-- `g_n_sessions` counts the hosts of the table with a session, and nobody else has
the session of one. -/
structure SessionsCounted (w : World) (L : List HostId) : Prop where
  table : Chain.Path w.next w.gHosts L none
  live : w.SessionsLive L
  created : ∀ p s, w.sessionOf p = some s → s < w.sessions.length
  unshared : ∀ p ∈ L, ∀ q s, w.sessionOf p = some s → w.sessionOf q = some s → p = q
  count : w.gNSessions = (w.holders L).length

/-- No `atime + c_session_timeout` of the table overflows. -/
def NoOverflow (c : Conf) (w : World) (L : List HostId) : Prop :=
  ∀ p ∈ L, ∀ s ses, w.sessionOf p = some s → w.live s = some ses →
    -2 ^ 31 ≤ ses.atime + c.cSessionTimeout ∧ ses.atime + c.cSessionTimeout < 2 ^ 31

/-- `host_session_add(h, service, sid)` at the time `now`, from `w` to `w'`. -/
structure SessionAdded (c : Conf) (now : Int) (L : List HostId) (h : HostId) (service : Nat) (sid : Int)
    (w : World) (b : Bool) (w' : World) : Prop where
  granted : b = true ↔ ((L.filter fun q => q ≠ h ∧ w.current c now q).length : Int) < c.cSessionMax
  kept : ∀ q ≠ h, ∀ s ses, w.sessionOf q = some s → w.live s = some ses →
    now - ses.atime ≤ c.cSessionTimeout → w'.sessionOf q = some s ∧ w'.live s = some ses
  ended : ∀ q ∈ L, q ≠ h → w.current c now q = false → w'.sessionOf q = none
  fresh : b = true → ∃ s, w'.sessionOf h = some s ∧ w.live s = none ∧
    w'.live s = some ⟨service, now, sid, .replicate 8 0, none⟩
  refused : b = false → w'.sessionOf h = none
  counted : SessionsCounted w' L

section
variable {c : Conf} {os : Os} {w w' w₁ w₂ : World} {L : List HostId} {h p q : HostId} {s : SessId}
  {ses : Session} {es : List (HostId × SessId)} {e : Ev} {host : Host}

theorem mem_holders : p ∈ w.holders L ↔ p ∈ L ∧ (w.sessionOf p).isSome := List.mem_filter

/-! ## Ending and creating -/

/-- The only difference is that `p` has no session any more: one holder less. -/
theorem holders_less (hL : L.Nodup) (hp : p ∈ L) (hs : (w.sessionOf p).isSome) (hnone : w'.sessionOf p = none)
    (hsame : ∀ q ≠ p, w'.sessionOf q = w.sessionOf q) :
    (w.holders L).length = (w'.holders L).length + 1 := by
  have herase : w'.holders L = (w.holders L).erase p := by
    unfold World.holders
    rw [(hL.filter _).erase_eq_filter, List.filter_filter]
    refine List.filter_congr fun q _ => ?_
    by_cases hq : q = p
    · simp [hq, hnone]
    · simp [hq, hsame q hq]
  rw [herase, List.length_erase_add_one (mem_holders.mpr ⟨hp, hs⟩)]

/-- Nothing else matters: descriptors, listeners, times, the trace. -/
theorem SessionsCounted.congr (hc : SessionsCounted w L) (hsame : SameHosts w w')
    (hof : ∀ p, w'.sessionOf p = w.sessionOf p) (hg : w'.gNSessions = w.gNSessions)
    (hlen : w'.sessions.length = w.sessions.length)
    (hlive : ∀ s ses, w.live s = some ses → ∃ ses', w'.live s = some ses') : SessionsCounted w' L where
  table := by
    rw [hsame.gHosts]
    exact hc.table.congr fun a _ => hsame.next a
  live p hp s hs := by
    rw [hof] at hs
    obtain ⟨ses, hl⟩ := hc.live p hp s hs
    exact hlive s ses hl
  created p s hs := by
    rw [hof] at hs
    rw [hlen]
    exact hc.created p s hs
  unshared p hp q s hs hq := by
    rw [hof] at hs hq
    exact hc.unshared p hp q s hs hq
  count := by
    rw [hg, hc.count]
    exact congrArg _ (congrArg _ (List.filter_congr fun p _ => by rw [hof]))

theorem SessionsCounted.release (hc : SessionsCounted w L) (hr : Released w w') : SessionsCounted w' L :=
  hc.congr (.of_eq hr.gHosts hr.hosts) hr.sessionOf hr.gN (congrArg _ hr.sessions) fun s ses hl =>
    ⟨ses, (hr.live s).trans hl⟩

/-- A session is written to. -/
theorem SessionsCounted.update {g : Session → Session} (hc : SessionsCounted w L) (hsame : SameHosts w w')
    (hof : ∀ p, w'.sessionOf p = w.sessionOf p) (hg : w'.gNSessions = w.gNSessions)
    (hs : w'.sessions = Slots.update w.sessions s g) : SessionsCounted w' L := by
  refine hc.congr hsame hof hg (by simp [hs, Slots.update]) fun t ses hl => ?_
  have hl : Slots.get w.sessions t = some ses := hl
  rw [World.live, hs, Slots.get_update, hl]
  split
  · exact ⟨g ses, rfl⟩
  · exact ⟨ses, rfl⟩

theorem next_endSession (w : World) (p : HostId) (s : SessId) (a : HostId) :
    (w.endSession p s).next a = w.next a := by
  unfold World.next
  rw [World.endSession_hosts, List.getElem?_modify]
  cases w.hosts[a]? with
  | none => rfl
  | some g => by_cases ha : p = a <;> simp [ha]

theorem SessionsCounted.endSession (hc : SessionsCounted w L) (hp : p ∈ L) (hs : w.sessionOf p = some s) :
    SessionsCounted (w.endSession p s) L where
  table := hc.table.congr fun a _ => next_endSession w p s a
  live q hq t ht := by
    rw [sessionOf_endSession] at ht
    split at ht
    · cases ht
    · rename_i hqp
      rw [live_endSession, if_neg fun hts => hqp (hc.unshared q hq p t ht (by rw [hts]; exact hs))]
      exact hc.live q hq t ht
  created q t ht := by
    rw [sessionOf_endSession] at ht
    split at ht
    · cases ht
    · have := hc.created q t ht
      simpa [Slots.clear] using this
  unshared q hq r t ht hr := by
    rw [sessionOf_endSession] at ht hr
    split at ht
    · cases ht
    · split at hr
      · cases hr
      · exact hc.unshared q hq r t ht hr
  count := by
    have hcount := hc.count
    have hless : (w.holders L).length = ((w.endSession p s).holders L).length + 1 := by
      refine holders_less hc.table.nodup hp (by rw [hs]; rfl) ?_ fun q hq => ?_
      · rw [sessionOf_endSession, if_pos rfl]
      · rw [sessionOf_endSession, if_neg hq]
    rw [World.endSession_gNSessions]
    omega

/-- **Sessions that end are counted off.** -/
theorem SessionsCounted.ends (hc : SessionsCounted w L) (he : Ends es w w') (hes : ∀ e ∈ es, e.1 ∈ L) :
    SessionsCounted w' L := by
  induction he with
  | nil => exact hc
  | @snoc w w₁ w₂ es p s ses he hp hs hr ih =>
    have hc₁ := ih hc fun e hm => hes e (List.mem_append_left _ hm)
    have hrel := releaseFds_released hr
    refine (hc₁.release hrel).endSession (hes (p, s) (List.mem_append_right _ (List.mem_singleton_self _))) ?_
    rw [hrel.sessionOf]
    exact hp

/-- **A session that is created is counted.** -/
theorem SessionsCounted.start (hc : SessionsCounted w L) (hh : h ∈ L) (hn : w.sessionOf h = none)
    (ses : Session) : SessionsCounted (w.startSession h ses) L := by
  have hlt := path_lt hc.table h hh
  have hlen : (w.startSession h ses).sessions.length = w.sessions.length + 1 := by simp [Slots.push]
  have hfresh : ∀ q, w.sessionOf q ≠ some w.sessions.length := fun q hq =>
    Nat.lt_irrefl _ (hc.created q _ hq)
  have hcases : ∀ q t, (w.startSession h ses).sessionOf q = some t →
      (q = h ∧ t = w.sessions.length) ∨ (q ≠ h ∧ w.sessionOf q = some t ∧ t ≠ w.sessions.length) := by
    intro q t ht
    rw [sessionOf_startSession] at ht
    by_cases hq : q = h
    · rw [if_pos ⟨hq, hq ▸ hlt⟩, Option.some_inj] at ht
      exact .inl ⟨hq, ht.symm⟩
    · rw [if_neg fun hc => hq hc.1] at ht
      refine .inr ⟨hq, ht, ?_⟩
      rintro rfl
      exact hfresh q ht
  refine ⟨?_, fun q hq t ht => ?_, fun q t ht => ?_, fun q hq r t ht hr => ?_, ?_⟩
  · exact hc.table.congr fun a _ => (SameHosts.startSession w h ses).next a
  · rw [live_startSession]
    rcases hcases q t ht with ⟨-, rfl⟩ | ⟨-, ht, hne⟩
    · exact ⟨ses, if_pos rfl⟩
    · rw [if_neg hne]
      exact hc.live q hq t ht
  · rw [hlen]
    rcases hcases q t ht with ⟨-, rfl⟩ | ⟨-, ht, -⟩
    · exact Nat.lt_succ_self _
    · exact Nat.lt_succ_of_lt (hc.created q t ht)
  · rcases hcases q t ht with ⟨rfl, rfl⟩ | ⟨-, ht, hne⟩
    · rcases hcases r _ hr with ⟨rfl, -⟩ | ⟨-, -, hne⟩
      · rfl
      · exact absurd rfl hne
    · rcases hcases r t hr with ⟨-, rfl⟩ | ⟨-, hr, -⟩
      · exact absurd rfl hne
      · exact hc.unshared q hq r t ht hr
  · have hcount := hc.count
    have hmore : ((w.startSession h ses).holders L).length = (w.holders L).length + 1 := by
      refine holders_less hc.table.nodup hh ?_ hn fun q hq => ?_
      · rw [sessionOf_startSession, if_pos ⟨rfl, hlt⟩]
        rfl
      · rw [sessionOf_startSession, if_neg fun hc => hq hc.1]
    rw [World.startSession_gNSessions]
    omega

/-! ## The sweep -/

/-- In `int`, as without overflow. -/
theorem sessionExpired_iff (os : Os) (hlow : -2 ^ 31 ≤ ses.atime + c.cSessionTimeout)
    (hhigh : ses.atime + c.cSessionTimeout < 2 ^ 31) :
    sessionExpired c os ses = true ↔ ¬os.now - ses.atime ≤ c.cSessionTimeout := by
  unfold sessionExpired
  rw [int32_of_fits hlow hhigh, decide_eq_true_eq]
  omega

theorem current_eq (hs : w.sessionOf p = some s) (hl : w.live s = some ses) (now : Int) :
    w.current c now p = decide (now - ses.atime ≤ c.cSessionTimeout) := by
  rw [World.current, hs, Option.bind_some, hl]
  rfl

/-- What `host_session_add` ends: the sessions that have expired, and the host's own. -/
theorem mem_replaced_iff (os : Os) (hlive : w.SessionsLive L) (hno : NoOverflow c w L) (hh : h ∈ L) :
    (p, s) ∈ w.replaced c os L h ↔
      p ∈ L ∧ w.sessionOf p = some s ∧ (p = h ∨ w.current c os.now p = false) := by
  have hidle : ∀ q ∈ L, ∀ t, w.idle c os q = some (q, t) ↔
      w.sessionOf q = some t ∧ w.current c os.now q = false := by
    intro q hq t
    cases hs : w.sessionOf q with
    | none =>
      simp [World.idle, hs]
    | some t' =>
      obtain ⟨ses, hl⟩ := hlive q hq t' hs
      obtain ⟨hlow, hhigh⟩ := hno q hq t' ses hs hl
      rw [idle_eq hs hl, current_eq hs hl, decide_eq_false_iff_not, ← sessionExpired_iff os hlow hhigh]
      by_cases hx : sessionExpired c os ses = true
      · simp [hx]
      · simp [hx]
  unfold World.replaced
  rw [List.mem_append, List.mem_filterMap]
  constructor
  · rintro (⟨q, hq, hi⟩ | hm)
    · obtain ⟨rfl, -⟩ := idle_some hi
      obtain ⟨hs, hx⟩ := (hidle p hq s).mp hi
      exact ⟨hq, hs, .inr hx⟩
    · split at hm
      · cases hm
      · rw [Option.mem_toList, Option.map_eq_some_iff] at hm
        obtain ⟨t, ht, he⟩ := hm
        cases he
        exact ⟨hh, ht, .inl rfl⟩
  · rintro ⟨hp, hs, hcase⟩
    by_cases hx : w.current c os.now p = false
    · exact .inl ⟨p, hp, (hidle p hp s).mpr ⟨hs, hx⟩⟩
    · obtain rfl := hcase.resolve_right hx
      have hi : w.idle c os p = none := by
        refine Option.eq_none_iff_forall_ne_some.mpr fun e he => hx ?_
        obtain ⟨hep, hes, -⟩ := idle_some he
        exact ((hidle p hp e.2).mp (by rw [he]; exact congrArg some (Prod.ext hep rfl))).2
      refine .inr ?_
      rw [if_neg fun hc => hc.2 hi, hs]
      exact List.mem_singleton_self _

/-- No session is ended twice. -/
theorem replaced_nodup (hc : SessionsCounted w L) (hno : NoOverflow c w L) (hh : h ∈ L) :
    ((w.replaced c os L h).map Prod.snd).Nodup := by
  have hone : (w.replaced c os L h).Nodup := by
    unfold World.replaced
    refine List.Nodup.append (hc.table.nodup.filterMap fun a b e ha hb => ?_) ?_ ?_
    · rw [← (idle_some (Option.mem_def.mp ha)).1, (idle_some (Option.mem_def.mp hb)).1]
    · split
      · exact List.nodup_nil
      · cases (w.sessionOf h).map fun s => (h, s) with
        | none => exact List.nodup_nil
        | some e => exact List.nodup_singleton e
    · intro e he hown
      split at hown
      · cases hown
      · rename_i hi
        obtain ⟨a, ha, hidle⟩ := List.mem_filterMap.mp he
        rw [Option.mem_toList, Option.map_eq_some_iff] at hown
        obtain ⟨t, -, rfl⟩ := hown
        obtain ⟨rfl, -⟩ := idle_some hidle
        exact hi ⟨ha, by rw [hidle]; exact Option.some_ne_none _⟩
  refine hone.map_on fun a ha b hb hab => ?_
  obtain ⟨hL, hsa, -⟩ := (mem_replaced_iff os hc.live hno hh (p := a.1) (s := a.2)).mp ha
  obtain ⟨-, hsb, -⟩ := (mem_replaced_iff os hc.live hno hh (p := b.1) (s := b.2)).mp hb
  exact Prod.ext (hc.unshared a.1 hL b.1 a.2 hsa (by rw [hab]; exact hsb)) hab

/-- The sessions after the sweep: those of the other hosts that have not expired, and
those of the hosts that are not listed. -/
theorem sessionOf_swept (hc : SessionsCounted w L) (hno : NoOverflow c w L) (hh : h ∈ L)
    (he : Ends (w.replaced c os L h) w w') (q : HostId) :
    w'.sessionOf q = if q ∈ L ∧ (q = h ∨ w.current c os.now q = false) then none else w.sessionOf q := by
  have hmem := fun t => mem_replaced_iff (c := c) (p := q) (s := t) os hc.live hno hh
  rcases he.sessionOf_or q with heq | ⟨hnone, t, -, hm⟩
  · split
    · rename_i hgone
      rw [heq]
      refine Option.eq_none_iff_forall_ne_some.mpr fun t ht => ?_
      have hend := (he.mem ((hmem t).mpr ⟨hgone.1, ht, hgone.2⟩)).2.2.1
      rw [heq, ht] at hend
      cases hend
    · exact heq
  · obtain ⟨hL, -, hcase⟩ := (hmem t).mp hm
    rw [hnone, if_pos ⟨hL, hcase⟩]

/-! ## In the daemon -/

theorem replaced_listed (hh : h ∈ L) : ∀ e ∈ w.replaced c os L h, e.1 ∈ L := by
  intro e he
  rcases List.mem_append.mp he with he | he
  · obtain ⟨p, hp, hi⟩ := List.mem_filterMap.mp he
    rw [(idle_some hi).1]
    exact hp
  · split at he
    · cases he
    · rw [Option.mem_toList, Option.map_eq_some_iff] at he
      obtain ⟨s, -, rfl⟩ := he
      exact hh

theorem SessionsCounted.prelude {nl : Option Listener} (hc : SessionsCounted w L) (hh : h ∈ L)
    (hpre : Prelude h w e nl w') : SessionsCounted w' L := by
  cases hpre with
  | tftp os l frm loc pkt es w₁ nl w₂ he hown hnl =>
    have hes : ∀ e ∈ es, e.1 ∈ L := by
      rcases hown with ⟨-, rfl⟩ | ⟨s, -, rfl⟩
      · exact fun e hm => by cases hm
      · intro e hm
        rw [List.mem_singleton.mp hm]
        exact hh
    have hc₁ := hc.ends he hes
    cases hnl with
    | failed => exact hc₁
    | created l => exact hc₁.congr (.of_eq rfl rfl) (fun _ => rfl) rfl rfl fun s ses hl => ⟨ses, hl⟩
  | rmp => exact hc.congr (.of_eq rfl rfl) (fun _ => rfl) rfl rfl fun s ses hl => ⟨ses, hl⟩

theorem SessionsCounted.granting {svc : Nat} {sid : Int} {f : File} (hc : SessionsCounted w L) (hh : h ∈ L)
    (hn : w.sessionOf h = none) (hg : Granting c os svc sid h f w w') : SessionsCounted w' L := by
  cases hg with
  | busy ios => exact hc.congr (.of_eq rfl rfl) (fun _ => rfl) rfl rfl fun s ses hl => ⟨ses, hl⟩
  | failed ses err ios => exact (hc.start hh hn ses).update (.of_eq rfl rfl) (fun _ => rfl) rfl rfl
  | opened ses d g ios w' _ _ _ _ hw =>
    subst hw
    have hopened : SessionsCounted ((w.startSession h ses).opened h w.sessions.length f.path d) L :=
      (hc.start hh hn ses).update (.of_eq rfl rfl) (fun _ => rfl) rfl rfl
    exact hopened.update (.of_eq rfl rfl) (fun _ => rfl) rfl rfl

/-- A packet that makes no clone. -/
theorem SessionsCounted.handle {u : Unit} (hc : SessionsCounted w L) (hok : HostsOk w L) (hn : ¬e.clones w)
    (hr : e.handle c w = .ok u w') : HostsOk w' L ∧ SessionsCounted w' L := by
  rcases handle_ok hr with ⟨ios, -, rfl⟩ | ⟨t, h, w₁, host, ha, -, hs⟩
  · exact ⟨hok.emits ios, hc.congr (.of_eq rfl rfl) (fun _ => rfl) rfl rfl fun s ses hl => ⟨ses, hl⟩⟩
  cases ha with
  | cloned os l p t tmpl h b w' _ hcl => exact absurd hcl hn
  | known e h hhost =>
    have hh := Ev.host_mem hok hhost
    refine ⟨(SameHosts.served hs).hostsOk hok, ?_⟩
    cases hs with
    | plain ios => exact hc.congr (.of_eq rfl rfl) (fun _ => rfl) rfl rfl fun s ses hl => ⟨ses, hl⟩
    | answer s ses ios => exact hc.update (.of_eq rfl rfl) (fun _ => rfl) rfl rfl
    | done es w' _ _ he hown =>
      refine hc.ends he ?_
      rcases hown with ⟨-, rfl⟩ | ⟨s, -, rfl⟩
      · exact fun e hm => by cases hm
      · intro e hm
        rw [List.mem_singleton.mp hm]
        exact hh
    | request f nl w₀ ps w₃ w' _ hpre hpath _ he _ hnone hg _ =>
      have hc₀ := hc.prelude hh hpre
      obtain rfl := hpath.unique hc₀.table
      exact (hc₀.ends he (replaced_listed hh)).granting hh hnone hg

theorem boot_sessionsCounted (hb : Boot c w) : ∃ L, HostsOk w L ∧ SessionsCounted w L := by
  obtain ⟨t, ht, hhosts, hg⟩ := hb.hosts
  have hi := (configured_inv ht).1
  have hnone := boot_sessionOf hb
  have hnext : t.w.next = w.next := by
    funext p; unfold World.next; rw [hhosts]
  have hchain := hi.chain
  rw [hnext, hg] at hchain
  have hnobody : w.holders t.accepted = [] := List.filter_eq_nil_iff.mpr fun p _ => by rw [hnone]; exact nofun
  have hgone : ∀ {p : HostId} {s : SessId}, w.sessionOf p ≠ some s := fun hs => by rw [hnone] at hs; cases hs
  refine ⟨t.accepted, ⟨.of_path hchain, fun p hp g hh => hi.complete p hp g (by rw [hhosts]; exact hh)⟩, hchain,
    fun p _ s hs => absurd hs hgone, fun p s hs => absurd hs hgone, fun p _ q s hs => absurd hs hgone, ?_⟩
  rw [hb.gN, hnobody]
  rfl

end

/-- In every run without clones, the sessions of the table are counted, and none has
the descriptor of a listener. -/
theorem daemon_counted (c : Conf) (σ : Sys)
    (hr : ((daemon c).guard fun σ e => ¬e.clones σ.w).Reachable σ) :
    (∃ L, SessionsCounted σ.w L) ∧ Unlistened σ.w := by
  have hind : ((daemon c).guard fun σ e => ¬e.clones σ.w).Inductive
      fun σ => (∃ L, HostsOk σ.w L ∧ SessionsCounted σ.w L) ∧ Descriptors σ.w := by
    refine ⟨fun σ hi => ⟨boot_sessionsCounted hi.1, boot_descriptors hi.1⟩, fun σ e σ' hi hs => ?_⟩
    obtain ⟨⟨L, hok, hc⟩, hd⟩ := hi
    have hstart : SessionsCounted σ.w.start L :=
      hc.congr (.of_eq rfl rfl) (fun _ => rfl) rfl rfl fun s ses hl => ⟨ses, hl⟩
    have hrun : e.handle c σ.w.start = .ok () σ'.w := hs.1.2.1
    exact ⟨⟨L, hstart.handle hok.start hs.2 hrun⟩, (handle_carried hok.start hd.start hrun).1⟩
  obtain ⟨⟨L, -, hc⟩, hd⟩ := hind.reachable σ hr
  exact ⟨⟨L, hc⟩, hd.unlistened⟩

/-- **A new session costs nobody else theirs**: it is granted exactly if, without the
host's own session and without those idle for too long, fewer than `c_session_max`
are left; no other session changes, and the count is right again. -/
theorem session_add_counted (c : Conf) (os : Os) (w : World) (L : List HostId) (h : HostId) (service : Nat)
    (sid : Int) (hc : SessionsCounted w L) (hh : h ∈ L) (hu : Unlistened w) (hno : NoOverflow c w L)
    (hnow : -2 ^ 31 ≤ os.now ∧ os.now < 2 ^ 31) : ∃ b w', hostSessionAdd c os h service sid w = .ok b w' ∧
      SessionAdded c os.now L h service sid w b w' := by
  have hlt := path_lt hc.table h hh
  obtain ⟨b, w', hr⟩ := (hostSessionAdd_returns c os h service sid hu).mpr
    ⟨hlt, L, hc.table, hc.live, hc.live h hh, replaced_nodup hc hno hh⟩
  refine ⟨b, w', hr, ?_⟩
  obtain ⟨ps, w₁, hpath, -, he, -, hnone, hcase⟩ := hostSessionAdd_ok hr
  obtain rfl := hpath.unique hc.table
  have hswept := sessionOf_swept hc hno hh he
  have hc₁ : SessionsCounted w₁ ps := hc.ends he (replaced_listed hh)
  have hheld : w₁.holders ps = ps.filter fun q => q ≠ h ∧ w.current c os.now q := by
    refine List.filter_congr fun q hq => ?_
    rw [hswept]
    by_cases hqh : q = h
    · simp [hqh, hh]
    · cases hx : w.current c os.now q with
      | false => simp [hq]
      | true =>
        have hsome : (w.sessionOf q).isSome := by
          cases hs : w.sessionOf q with
          | none => rw [World.current, hs] at hx; cases hx
          | some t => rfl
        simp [hqh, hsome]
  have hcount := hc₁.count
  rw [hheld] at hcount
  have hkept : ∀ q ≠ h, ∀ s ses, w.sessionOf q = some s → w.live s = some ses →
      os.now - ses.atime ≤ c.cSessionTimeout → w₁.sessionOf q = some s ∧ w₁.live s = some ses := by
    intro q hq s ses hs hl hidle
    have hcur : w.current c os.now q = true := by
      rw [current_eq hs hl, decide_eq_true_eq]
      exact hidle
    refine ⟨by rw [hswept, if_neg (by simp [hq, hcur]), hs], he.live_keep hl fun hgone => ?_⟩
    -- if it had ended, then as the session of a listed host, and that is `q`
    obtain ⟨⟨r, t⟩, hm, rfl⟩ := List.mem_map.mp hgone
    obtain ⟨hL, hsr, hex⟩ := (mem_replaced_iff os hc.live hno hh).mp hm
    obtain rfl := hc.unshared r hL q t hsr hs
    rcases hex with heq | hold
    · exact hq heq
    · rw [hcur] at hold
      cases hold
  have hended : ∀ q ∈ ps, q ≠ h → w.current c os.now q = false → w₁.sessionOf q = none := by
    intro q hq _ hold
    rw [hswept, if_pos ⟨hq, .inr hold⟩]
  rcases hcase with ⟨rfl, hmax, rfl⟩ | ⟨rfl, hmax, rfl⟩
  · have hlt₁ : h < w₁.hosts.length := by
      rw [he.frame.length]
      exact hlt
    refine ⟨iff_of_true rfl (by omega), fun q hq s ses hs hl hidle => ?_, fun q hq hqh hold => ?_,
      fun _ => ⟨w₁.sessions.length, ?_, ?_, ?_⟩, fun hb => absurd hb.symm Bool.false_ne_true,
      hc₁.start hh hnone _⟩
    · obtain ⟨hs₁, hl₁⟩ := hkept q hq s ses hs hl hidle
      rw [sessionOf_startSession, if_neg fun hc => hq hc.1, live_startSession,
        if_neg (Nat.ne_of_lt (hc₁.created q s hs₁))]
      exact ⟨hs₁, hl₁⟩
    · rw [sessionOf_startSession, if_neg fun hc => hqh hc.1]
      exact hended q hq hqh hold
    · rw [sessionOf_startSession, if_pos ⟨rfl, hlt₁⟩]
    · have hlen : w.sessions.length ≤ w₁.sessions.length := he.frame.sessions.ge
      exact Slots.get_none_of_le hlen
    · rw [live_startSession, if_pos rfl, Session.fresh, int32_of_fits hnow.1 hnow.2]
  · exact ⟨iff_of_false Bool.false_ne_true (by omega), hkept, hended,
      fun hb => absurd hb Bool.false_ne_true, fun _ => hnone, hc₁⟩

/-- The one host of `reading` has a session. -/
theorem reading_sessionOf {p : HostId} {s : SessId} (hs : reading.w.sessionOf p = some s) : p = 0 ∧ s = 0 := by
  obtain ⟨g, hg, hses⟩ := sessionOf_some.mp hs
  have hlt : p < 1 := (List.getElem?_eq_some_iff.mp hg).1
  obtain rfl := Nat.lt_one_iff.mp hlt
  have h0 : reading.w.sessionOf 0 = some 0 := rfl
  rw [h0] at hs
  exact ⟨rfl, (Option.some.inj hs).symm⟩

theorem reading_counted : SessionsCounted reading.w [0] where
  table := ⟨rfl, none, rfl, rfl⟩
  live p _ s hs := by
    obtain ⟨-, rfl⟩ := reading_sessionOf hs
    exact ⟨_, rfl⟩
  created p s hs := by
    obtain ⟨-, rfl⟩ := reading_sessionOf hs
    exact Nat.one_pos
  unshared p _ q s hs hq := (reading_sessionOf hs).1.trans (reading_sessionOf hq).1.symm
  count := rfl

theorem reading_noOverflow : NoOverflow plainConf reading.w [0] := by
  intro p _ s ses hs hl
  obtain ⟨-, rfl⟩ := reading_sessionOf hs
  cases hl
  decide

/-- Its client asks for a new one. -/
theorem session_add_reading : ∃ b w', hostSessionAdd plainConf plainOs 0 serviceRmp 7 reading.w = .ok b w' ∧
    SessionAdded plainConf plainOs.now [0] 0 serviceRmp 7 reading.w b w' :=
  session_add_counted plainConf plainOs reading.w [0] 0 serviceRmp 7 reading_counted (List.mem_singleton_self 0)
    (daemon_descriptors _ reading_reachable).unlistened reading_noOverflow (by decide)

end Bootd
