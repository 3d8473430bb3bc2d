import Bootd.Config.Services
import Bootd.L2State.Log
import Mathlib.Data.List.Induction

/-!
# Registering the services (`service.c`)

`service_add` appends a service to the list, looks at its id, and gives the module of
the log its name. The first service is only put into the list.

* `serviceAdd_new`: what the call does with a service that is not the first.
* `registerAll_run`: what a sequence of calls leaves.
* `serviceInit_registered`: the services of the program.
-/
namespace Bootd

open Bootd.Core

/-- mirrors src/service.h:12-15 (`service_t`, what `service_add` reads) -/
structure ServiceEntry where
  name : CStr
  id : BitVec 32
  deriving DecidableEq

/-- `l_services`, and `l_mod_names` of the log. -/
structure Registry where
  services : List ServiceEntry
  modNames : Nat → CStr

/-- Before the first service. -/
def Registry.start : Registry := ⟨[], Log.lModNames⟩

/-- `!n` -/
def logicalNot (n : BitVec 32) : BitVec 32 := if n = 0 then 1 else 0

/-- The loop, and the id shifted to the bit it has found. mirrors src/service.c:91-96 -/
def shiftedId (id : BitVec 32) : BitVec 32 := id.sshiftRight (LowBit.shift id Log.logModMax)

/-- mirrors src/service.c:97 -/
def Refused (i : BitVec 32) : Prop := i &&& logicalNot 1 ≠ 0 ∨ (Log.logModMax : Int) ≤ i.toInt

instance (i : BitVec 32) : Decidable (Refused i) := inferInstanceAs (Decidable (_ ∨ _))

def duplicateService (name : CStr) : CStr :=
  cstr "duplicate entry for service " ++ name ++ cstr " (ignored)"

def invalidServiceId (id : BitVec 32) : CStr := cstr "invalid service id: " ++ cstr (toString id.toInt)

/-- mirrors src/service.c:97-99 -/
def checkId (st : Log.State) (id : BitVec 32) : Except CStr Unit :=
  if Refused (shiftedId id) then Log.logMsg st (3 ||| Log.logConf) (invalidServiceId id) else pure ()

/-- The error is the text behind which the program exits. mirrors src/service.c:75-105 -/
def serviceAdd (st : Log.State) (r : Registry) (s : ServiceEntry) : Except CStr Registry :=
  if r.services = [] then pure { r with services := [s] }
  else if r.services.any fun n => strIsEqual (some n.name) (some s.name) then do
    Log.logMsg st (2 ||| Log.logConf) (duplicateService s.name)
    pure r
  else do
    checkId st s.id
    pure ⟨r.services ++ [s], Log.logSetModName (shiftedId s.id) s.name r.modNames⟩

/-- A sequence of calls. -/
def registerAll (st : Log.State) (ss : List ServiceEntry) : Except CStr Registry :=
  ss.foldlM (serviceAdd st) .start

section
variable {st : Log.State} {r : Registry} {s : ServiceEntry} {ss : List ServiceEntry} {id : BitVec 32}

/-! ## One call -/

theorem mask_refuses : Refused (shiftedId id) ↔ (Log.logModMax : Int) ≤ (shiftedId id).toInt := by
  unfold Refused
  -- `!1` is 0
  rw [show logicalNot 1 = 0#32 from rfl, BitVec.and_zero]
  simp

/-- A refused id is an error, whatever the thresholds are. -/
theorem checkId_eq (hst : st.Reachable) (id : BitVec 32) :
    checkId st id = if Refused (shiftedId id) then .error (invalidServiceId id) else .ok () := by
  have hexit : Log.logMsg st (3 ||| Log.logConf) (invalidServiceId id) = .error (invalidServiceId id) :=
    if_pos ⟨hst.passes rfl, rfl⟩
  rw [checkId, hexit]
  rfl

theorem serviceAdd_first (h : r.services = []) : serviceAdd st r s = .ok { r with services := [s] } := if_pos h

/-- A service with a name of its own. -/
theorem serviceAdd_new (hst : st.Reachable) (hne : r.services ≠ []) (hnew : s.name ∉ r.services.map (·.name)) :
    serviceAdd st r s = if Refused (shiftedId s.id) then .error (invalidServiceId s.id)
      else .ok ⟨r.services ++ [s], Log.logSetModName (shiftedId s.id) s.name r.modNames⟩ := by
  have hany : ¬(r.services.any fun n => strIsEqual (some n.name) (some s.name)) = true := by
    rw [List.any_eq_true]
    rintro ⟨n, hn, heq⟩
    obtain ⟨x, hx, hx'⟩ := strIsEqual_iff.mp heq
    exact hnew (List.mem_map.mpr ⟨n, hn, Option.some.inj (hx.trans hx'.symm)⟩)
  rw [serviceAdd, if_neg hne, if_neg hany, checkId_eq hst]
  split_ifs <;> rfl

/-! ## A sequence of calls -/

/-- The names that the services behind the first one leave in the log. -/
def namesAfter (ss : List ServiceEntry) : Nat → CStr :=
  ss.foldl (fun names s => Log.logSetModName (shiftedId s.id) s.name names) Log.lModNames

theorem namesAfter_append (ss : List ServiceEntry) (s : ServiceEntry) :
    namesAfter (ss ++ [s]) = Log.logSetModName (shiftedId s.id) s.name (namesAfter ss) := by
  rw [namesAfter, List.foldl_append]
  rfl

/-- **What the calls leave**, if no two services have one name. -/
theorem registerAll_run (hst : st.Reachable) (hnames : (ss.map (·.name)).Nodup) :
    registerAll st ss = match ss.tail.find? fun s => Refused (shiftedId s.id) with
      | some s => .error (invalidServiceId s.id)
      | none => .ok ⟨ss, namesAfter ss.tail⟩ := by
  induction ss using List.reverseRecOn with
  | nil => rfl
  | append_singleton ss s ih =>
    rw [List.map_append, List.nodup_append] at hnames
    obtain ⟨hnames, -, hnew⟩ := hnames
    have hs : s.name ∉ ss.map (·.name) := fun hmem => hnew s.name hmem s.name (List.mem_singleton_self _) rfl
    specialize ih hnames
    rw [registerAll, List.foldlM_append]
    change (registerAll st ss >>= fun r => List.foldlM (serviceAdd st) r [s]) = _
    simp only [List.foldlM_cons, List.foldlM_nil, bind_pure, ih]
    cases ss with
    | nil => rfl
    | cons t ss =>
      rw [List.cons_append, List.tail_cons, List.tail_cons, List.find?_append]
      cases hfind : ss.find? fun s => Refused (shiftedId s.id) with
      | some b => rfl
      | none =>
        change serviceAdd st ⟨t :: ss, namesAfter ss⟩ s = _
        rw [serviceAdd_new hst (List.cons_ne_nil _ _) hs, Option.none_or, List.find?_singleton]
        by_cases hid : Refused (shiftedId s.id)
        · rw [if_pos hid, if_pos (decide_eq_true hid)]
        · rw [if_neg hid, if_neg (by simpa using hid)]
          change _ = Except.ok (Registry.mk (t :: (ss ++ [s])) (namesAfter (ss ++ [s])))
          rw [namesAfter_append]
          rfl

/-- No call ended with an error, and the services are in the list in the order of the calls. -/
theorem registerAll_ok_iff (hst : st.Reachable) (hnames : (ss.map (·.name)).Nodup) :
    registerAll st ss = .ok r ↔ (∀ s ∈ ss.tail, ¬Refused (shiftedId s.id)) ∧ r = ⟨ss, namesAfter ss.tail⟩ := by
  rw [registerAll_run hst hnames]
  cases hfind : ss.tail.find? fun s => Refused (shiftedId s.id) with
  | some b =>
    have hb := List.find?_some hfind
    refine iff_of_false (fun h => by cases h) fun h => ?_
    exact h.1 b (List.mem_of_find?_eq_some hfind) (of_decide_eq_true hb)
  | none =>
    have hok : ∀ s ∈ ss.tail, ¬Refused (shiftedId s.id) := by simpa using hfind
    rw [and_iff_right hok, Except.ok.injEq, eq_comm]

/-- The services of the program, as their calls give them. -/
def initialServices : List ServiceEntry := serviceInit.map fun s => ⟨s.name, BitVec.ofNat 32 s.id⟩

/-- **The services of the program** are all in the list. -/
theorem serviceInit_registered (hst : st.Reachable) :
    ∃ r, registerAll st initialServices = .ok r ∧ r.services = initialServices :=
  ⟨_, registerAll_run hst (by decide), rfl⟩

end
end Bootd
