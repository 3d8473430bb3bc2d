import Bootd.Config.Words
import Bootd.L4Daemon.SessionAdd

/-!
# A long timeout ends every session at once

`host_session_timeout` compares `atime + c_session_timeout` with the clock
(src/host.c:216). The sum is an `int`: where it passes 2^31 it is negative, and every
session has expired as soon as it is looked at. The configuration takes any number
(src/conf.c:173-186).

Counterexample: `session_timeout 2147483647` (`long_timeout_expires`).

* `sessionExpired_wraps`: beyond 2^31 the session has expired at any time.
* `session_timeout_iff`: the sessions that end when they should are those with
  `atime + c_session_timeout < 2^31`.
-/
namespace Bootd

open Bootd.Core Bootd.Core.Exec

/-- `host_session_timeout` deletes the session of `p` exactly if it was idle for more than
`c_session_timeout`, and does nothing otherwise. -/
def TimesOut (c : Conf) (os : Os) (p : HostId) (w : World) (ses : Session) : Prop :=
  hostSessionTimeout c os p w =
    if c.cSessionTimeout < os.now - ses.atime then hostSessionDelete p w else .ok () w

section
variable {c : Conf} {os : Os} {p : HostId} {w : World} {s : SessId} {ses : Session} {v : CStr}

/-- A number that the configuration accepts is an `int`. -/
theorem strGetInt_bounds (v : CStr) : -2 ^ 31 ≤ (strGetInt v).1 ∧ (strGetInt v).1 < 2 ^ 31 := by
  unfold strGetInt int32
  refine ⟨?_, ?_⟩
  · have := Int.le_bmod (x := (strtol v).1) (m := 2 ^ 32) (by decide)
    omega
  · have := Int.bmod_lt (x := (strtol v).1) (m := 2 ^ 32) (by decide)
    omega

theorem hostSessionTimeout_run (hs : w.sessionOf p = some s) (hl : w.live s = some ses) :
    hostSessionTimeout c os p w =
      if sessionExpired c os ses = true then hostSessionDelete p w else .ok () w := by
  obtain ⟨host, hh, he⟩ := sessionOf_some.mp hs
  unfold hostSessionTimeout
  rw [Exec.bind_run (loadHost_ok.mpr ⟨hh, rfl⟩)]
  simp only [he]
  rw [Exec.bind_run (loadSession_ok.mpr ⟨hl, rfl⟩)]
  split <;> rfl

/-- A session that is deleted is gone. -/
theorem hostSessionDelete_ne (hs : w.sessionOf p = some s) : hostSessionDelete p w ≠ .ok () w := by
  intro hr
  obtain ⟨es, he, -, ⟨hn, -⟩ | ⟨t, -, rfl⟩⟩ := hostSessionDelete_ok hr
  · rw [hs] at hn
    cases hn
  · have hgone := (he.mem (List.mem_singleton_self _)).2.2.1
    rw [hs] at hgone
    cases hgone

/-- Beyond 2^31 the session has expired at any time. -/
theorem sessionExpired_wraps (hat : ses.atime < 2 ^ 31) (ht : c.cSessionTimeout < 2 ^ 31)
    (hsum : 2 ^ 31 ≤ ses.atime + c.cSessionTimeout) (hnow : 0 ≤ os.now) : sessionExpired c os ses = true := by
  unfold sessionExpired
  rw [int32_of_large hsum (by omega), decide_eq_true_eq]
  omega

end

/-- **Which sessions live as long as configured**: those for which the sum fits. -/
theorem session_timeout_iff (c : Conf) (os : Os) (p : HostId) (w : World) (s : SessId) (ses : Session) (v : CStr)
    (hv : strGetInt v = (c.cSessionTimeout, true)) (h0 : 0 ≤ c.cSessionTimeout)
    (hs : w.sessionOf p = some s) (hl : w.live s = some ses) (hat : 0 ≤ ses.atime ∧ ses.atime < 2 ^ 31)
    (hnow : 0 ≤ os.now ∧ os.now < 2 ^ 31) :
    TimesOut c os p w ses ↔ ses.atime + c.cSessionTimeout < 2 ^ 31 := by
  have ht : c.cSessionTimeout < 2 ^ 31 := by
    have := (strGetInt_bounds v).2
    rwa [hv] at this
  unfold TimesOut
  rw [hostSessionTimeout_run hs hl]
  constructor
  · intro hrun
    by_contra hsum
    -- the session is not old enough: neither `now` nor `atime` is beyond 2^31
    rw [if_pos (sessionExpired_wraps hat.2 ht (by omega) hnow.1), if_neg (by omega)] at hrun
    exact hostSessionDelete_ne hs hrun
  · intro hsum
    refine if_congr ?_ rfl rfl
    rw [sessionExpired_iff os (by omega) hsum]
    omega

/-- The longest timeout there is. -/
def foreverConf : Conf := { plainConf with cSessionTimeout := 2147483647 }

/-- The client's session is 1000 seconds old, and may be idle for 120. -/
theorem session_timeout_reading : ∃ ses, reading.w.live 0 = some ses ∧
    TimesOut plainConf { plainOs with now := 2000 } 0 reading.w ses :=
  ⟨_, rfl, (session_timeout_iff plainConf { plainOs with now := 2000 } 0 reading.w 0 _ (cstr "120") (by decide)
    (by decide) rfl rfl (by decide) (by decide)).mpr (by decide)⟩

/-- **Counterexample**: with a timeout of 68 years, the session that was just made has
expired. -/
theorem long_timeout_expires : ¬∀ (c : Conf) (os : Os) (p : HostId) (w : World) (s : SessId) (ses : Session)
    (v : CStr), strGetInt v = (c.cSessionTimeout, true) → 0 ≤ c.cSessionTimeout → w.sessionOf p = some s →
    w.live s = some ses → 0 ≤ ses.atime ∧ ses.atime < 2 ^ 31 → 0 ≤ os.now ∧ os.now < 2 ^ 31 →
    TimesOut c os p w ses := by
  intro h
  have hrun := h foreverConf plainOs 0 reading.w 0 _ (cstr "2147483647") (by decide) (by decide) rfl rfl
    (by decide) (by decide)
  unfold TimesOut at hrun
  have hs : reading.w.sessionOf 0 = some 0 := rfl
  rw [hostSessionTimeout_run (w := reading.w) (s := 0) hs rfl] at hrun
  exact hostSessionDelete_ne hs hrun

end Bootd
