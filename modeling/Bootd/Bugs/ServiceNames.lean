import Bootd.Config.ServiceIds

/-!
# All services share one name in the log

`service_add` looks for the bit that is set in the id of a service (src/service.c:91-95),
but then goes on with what is left when the id is shifted by it (src/service.c:96). For
an id of one bit that is 1, whichever bit it was, so that `log_set_mod_name` (src/service.c:100)
stores every name for module 1, and the last service keeps it. The check in between is
meant to refuse what has more bits: its mask is `!1`, which is 0, not `~1`
(src/service.c:97), and only ids of which at least 16 is left are refused. The first service
is neither checked nor named (src/service.c:80-82).

Counterexample: the services of the program (`services_unnamed`).

`service_ids_iff`: when the services are checked and named as they should be.
-/
namespace Bootd

open Bootd.Core

/-- One of the bits 0 to 15. -/
def SingleBit (id : BitVec 32) : Prop := ∃ k < 16, id = 1#32 <<< k

instance (id : BitVec 32) : Decidable (SingleBit id) := inferInstanceAs (Decidable (∃ k < 16, _))

/-- Of calls that were made in this order, each with a wrong id ends with an error, and if all ids are single
bits and distinct, each service has its name in the log. -/
structure RegistersWell (st : Log.State) (ss : List ServiceEntry) : Prop where
  reports : ∀ before s after r, ss = before ++ s :: after → registerAll st before = .ok r → ¬SingleBit s.id →
    serviceAdd st r s = .error (invalidServiceId s.id)
  named : (∀ s ∈ ss, SingleBit s.id) → (ss.map (·.id)).Nodup →
    ∃ r, registerAll st ss = .ok r ∧ ∀ s ∈ ss, r.modNames (Log.lModlevel2modnum s.id) = s.name

/-- Bit `k` is the lowest of the bits 0 to 15 of the id, or `k` is 16 and it has none of them, and the id is
at least 16 times that bit. -/
def Caught (id : BitVec 32) : Prop := ∃ k, LowBit.LowestAt 16 id k ∧ 16 * 2 ^ k ≤ id.toInt

/-- Of at most two services only the second has a name, and its place is that of module 1. -/
def OneNamed : List ServiceEntry → Prop
  | [] => True
  | [s] => s.name = []
  | [s, t] => s.name = [] ∧ t.id = 1#32
  | _ => False

section
variable {st : Log.State} {s t z : ServiceEntry} {ss : List ServiceEntry} {id : BitVec 32}

/-! ## Ids -/

theorem refused_caught : Refused (shiftedId id) ↔ Caught id := by
  have hlow : LowBit.LowestAt 16 id (LowBit.shift id 16) := LowBit.shift_lowest (by decide) id
  rw [mask_refuses]
  constructor
  · intro h
    exact ⟨_, hlow, LowBit.le_shifted.mp h⟩
  · rintro ⟨k, hk, h⟩
    obtain rfl := hk.unique hlow
    exact LowBit.le_shifted.mpr h

instance (id : BitVec 32) : Decidable (Caught id) := decidable_of_iff _ refused_caught

/-- The search finds the bit. -/
theorem SingleBit.shifted (h : SingleBit id) : shiftedId id = 1 := by
  obtain ⟨k, hk, rfl⟩ := h
  have hshift : LowBit.shift (1#32 <<< k) Log.logModMax = k :=
    (LowBit.shift_eq_iff (by decide)).mpr (LowBit.lowest_bit (by decide) hk)
  rw [shiftedId, hshift]
  exact LowBit.bit_shifted (by omega)

theorem SingleBit.accepted (h : SingleBit id) : ¬Refused (shiftedId id) := by
  rw [h.shifted]
  decide

/-- Only the service with id 1 has the place that is written to. -/
theorem SingleBit.slot (h : SingleBit id) : Log.lModlevel2modnum id = 1 ↔ id = 1#32 := by
  obtain ⟨k, hk, rfl⟩ := h
  rw [Log.lModlevel2modnum_bit hk, Nat.add_eq_right]
  exact (LowBit.bit_inj (k := 0) (by omega) (by decide)).symm

/-! ## Names -/

/-- Every name overwrites the one before. -/
theorem names_last (ss : List ServiceEntry) (h : ∀ s ∈ ss, SingleBit s.id) (hs : SingleBit s.id) :
    namesAfter (ss ++ [s]) = Function.update Log.lModNames 1 s.name := by
  have hset (s : ServiceEntry) (hs : SingleBit s.id) (names : Nat → CStr) :
      Log.logSetModName (shiftedId s.id) s.name names = Function.update names 1 s.name := by
    rw [hs.shifted]
    rfl
  rw [namesAfter_append, hset s hs]
  induction ss using List.reverseRecOn generalizing s with
  | nil => rfl
  | append_singleton ss t ih =>
    have ht := h t (by simp)
    rw [namesAfter_append, hset t ht, ih (fun u hu => h u (by simp [hu])) ht, Function.update_idem]

/-- Services with single bits. -/
theorem registers_single (hst : st.Reachable) (hnames : (ss.map (·.name)).Nodup) (h : ∀ s ∈ ss, SingleBit s.id) :
    registerAll st ss = .ok ⟨ss, namesAfter ss.tail⟩ :=
  (registerAll_ok_iff hst hnames).mpr ⟨fun s hs => (h s (List.mem_of_mem_tail hs)).accepted, rfl⟩

/-- The name found for a service when the last of at least two is `z`. -/
theorem found_iff (hs : SingleBit s.id) (z : ServiceEntry) :
    Function.update Log.lModNames 1 z.name (Log.lModlevel2modnum s.id) = s.name ↔
      s.id = 1#32 ∧ s.name = z.name ∨ s.id ≠ 1#32 ∧ s.name = [] := by
  rw [Function.update_apply]
  by_cases hid : s.id = 1#32
  · rw [if_pos (hs.slot.mpr hid)]
    simp [hid, eq_comm]
  · rw [if_neg (fun h => hid (hs.slot.mp h))]
    simp [hid, Log.lModNames, eq_comm]

/-- Of two services that are not the last, one has lost its name. -/
theorem names_lost (hnames : ((s :: t :: (ss ++ [z])).map (·.name)).Nodup)
    (h : ∀ v ∈ s :: t :: (ss ++ [z]), SingleBit v.id) :
    ¬∀ v ∈ s :: t :: (ss ++ [z]), namesAfter (t :: (ss ++ [z])) (Log.lModlevel2modnum v.id) = v.name := by
  intro hall
  have hlast : namesAfter (t :: (ss ++ [z])) = Function.update Log.lModNames 1 z.name :=
    names_last (t :: ss) (fun v hv => h v (List.mem_cons_of_mem _ (List.mem_append_left _ hv))) (h z (by simp))
  have hz : z.name ∈ (ss ++ [z]).map (·.name) := List.mem_map_of_mem (by simp)
  rw [List.map_cons, List.map_cons, List.nodup_cons, List.nodup_cons] at hnames
  obtain ⟨hs, ht, -⟩ := hnames
  rw [hlast] at hall
  -- without a place of its own, a name must be empty
  have hnil (v : ServiceEntry) (hv : v ∈ s :: t :: (ss ++ [z])) (hne : v.name ≠ z.name) : v.name = [] := by
    rcases (found_iff (h v hv) z).mp (hall v hv) with ⟨-, heq⟩ | ⟨-, heq⟩
    · exact absurd heq hne
    · exact heq
  have hsnil : s.name = [] := hnil s (by simp) fun heq => hs (List.mem_cons_of_mem _ (heq ▸ hz))
  have htnil : t.name = [] := hnil t (by simp) fun heq => ht (heq ▸ hz)
  exact hs (List.mem_cons.mpr (.inl (hsnil.trans htnil.symm)))

/-- Of two services. -/
theorem names_two (hne : s.name ≠ t.name) (hid : s.id ≠ t.id) (hs : SingleBit s.id) (ht : SingleBit t.id) :
    (∀ v ∈ [s, t], namesAfter [t] (Log.lModlevel2modnum v.id) = v.name) ↔ s.name = [] ∧ t.id = 1#32 := by
  have hlast : namesAfter [t] = Function.update Log.lModNames 1 t.name := names_last [] (by simp) ht
  rw [hlast, List.forall_mem_cons, List.forall_mem_singleton, found_iff hs, found_iff ht]
  constructor
  · rintro ⟨⟨-, heq⟩ | ⟨-, hnil⟩, h⟩
    · exact absurd heq hne
    · rcases h with ⟨hone, -⟩ | ⟨-, hnil'⟩
      · exact ⟨hnil, hone⟩
      · exact absurd (hnil.trans hnil'.symm) hne
  · rintro ⟨hnil, hone⟩
    exact ⟨.inr ⟨hone ▸ hid, hnil⟩, .inl ⟨hone, rfl⟩⟩

/-- **When each service has its name**. -/
theorem names_kept_iff (hnames : (ss.map (·.name)).Nodup) (h : ∀ s ∈ ss, SingleBit s.id)
    (hids : (ss.map (·.id)).Nodup) :
    (∀ s ∈ ss, namesAfter ss.tail (Log.lModlevel2modnum s.id) = s.name) ↔ OneNamed ss := by
  match ss with
  | [] => simp [OneNamed]
  | [s] => simp [OneNamed, namesAfter, Log.lModNames, eq_comm]
  | [s, t] => exact names_two (by simpa using hnames) (by simpa using hids) (h s (by simp)) (h t (by simp))
  | s :: t :: u :: rest =>
    have hlast : u :: rest = (u :: rest).dropLast ++ [(u :: rest).getLast (List.cons_ne_nil _ _)] :=
      (List.dropLast_append_getLast _).symm
    rw [hlast] at hnames h
    refine iff_of_false (fun hall => ?_) id
    rw [List.tail_cons, hlast] at hall
    exact names_lost hnames h hall

/-! ## Checks -/

/-- The first service whose id is not a single bit. -/
def firstWrong (ss : List ServiceEntry) : Option ServiceEntry := ss.find? fun s => ¬SingleBit s.id

theorem firstWrong_wrong (h : firstWrong ss = some s) : ¬SingleBit s.id := by simpa using List.find?_some h

theorem firstWrong_append (ss ts : List ServiceEntry) :
    firstWrong (ss ++ ts) = (firstWrong ss).or (firstWrong ts) := List.find?_append

theorem firstWrong_cons (h : ¬SingleBit s.id) (ss : List ServiceEntry) : firstWrong (s :: ss) = some s :=
  List.find?_cons_of_pos (decide_eq_true h)

/-- Behind the first service, an id is reported if it is caught. -/
theorem serviceAdd_behind (hst : st.Reachable) {before after : List ServiceEntry}
    (hnames : ((before ++ s :: after).map (·.name)).Nodup) (hne : before ≠ []) (names : Nat → CStr) :
    serviceAdd st ⟨before, names⟩ s = .error (invalidServiceId s.id) ↔ Caught s.id := by
  have hnew : s.name ∉ before.map (·.name) := by
    rw [List.map_append, List.nodup_append] at hnames
    exact fun hmem => hnames.2.2 s.name hmem s.name (List.mem_cons_self ..) rfl
  rw [serviceAdd_new hst hne hnew, ← refused_caught]
  split_ifs with h <;> simp [h]

/-- A wrong id is not that of the first service. -/
theorem wrong_behind {before after : List ServiceEntry} (hhead : ∀ s ∈ ss.head?, SingleBit s.id)
    (hss : ss = before ++ s :: after) (hwrong : ¬SingleBit s.id) : before ≠ [] := by
  rintro rfl
  exact hwrong (hhead s (by simp [hss]))

/-- **When every wrong id is reported**. -/
theorem reports_iff (hst : st.Reachable) (hnames : (ss.map (·.name)).Nodup) :
    (∀ before s after r, ss = before ++ s :: after → registerAll st before = .ok r → ¬SingleBit s.id →
      serviceAdd st r s = .error (invalidServiceId s.id)) ↔
      (∀ s ∈ ss.head?, SingleBit s.id) ∧ ∀ s ∈ firstWrong ss, Caught s.id := by
  have hsub {before after : List ServiceEntry} (h : ss = before ++ after) : (before.map (·.name)).Nodup :=
    hnames.sublist ((h ▸ List.sublist_append_left before after).map _)
  constructor
  · intro hrej
    have hhead : ∀ s ∈ ss.head?, SingleBit s.id := by
      intro s hs
      by_contra hwrong
      have hss : ss = [] ++ s :: ss.tail := (List.cons_head?_tail hs).symm
      have herr := hrej [] s ss.tail .start hss rfl hwrong
      rw [serviceAdd_first rfl] at herr
      cases herr
    refine ⟨hhead, fun s hs => ?_⟩
    have hwrong := firstWrong_wrong hs
    obtain ⟨-, before, after, hss, hbefore⟩ := List.find?_eq_some_iff_append.mp hs
    have hbefore : ∀ t ∈ before, SingleBit t.id := by simpa using hbefore
    have hne := wrong_behind hhead hss hwrong
    rw [← serviceAdd_behind hst (hss ▸ hnames) hne]
    exact hrej before s after _ hss (registers_single hst (hsub hss) hbefore) hwrong
  · rintro ⟨hhead, hfirst⟩ before s after r hss hrun hwrong
    obtain ⟨haccepted, rfl⟩ := (registerAll_ok_iff hst (hsub hss)).mp hrun
    have hne := wrong_behind hhead hss hwrong
    rw [serviceAdd_behind hst (hss ▸ hnames) hne]
    apply hfirst
    -- a wrong id in front of it would have ended the program
    have hbefore : firstWrong before = none := by
      by_contra hsome
      obtain ⟨t, ht⟩ := Option.ne_none_iff_exists'.mp hsome
      have hcaught : Caught t.id := hfirst t (by rw [hss, firstWrong_append, ht]; rfl)
      obtain ⟨u, rest, rfl⟩ := List.exists_cons_of_ne_nil hne
      rcases List.mem_cons.mp (List.mem_of_find?_eq_some ht) with rfl | htail
      · exact firstWrong_wrong ht (hhead t (by simp [hss]))
      · exact haccepted t htail (refused_caught.mpr hcaught)
    rw [hss, firstWrong_append, hbefore, firstWrong_cons hwrong]
    rfl

end

/-- **When the services are checked and named**: no wrong id is that of the first service, the first of them is
caught, and of services with distinct single bits only one has a name. -/
theorem service_ids_iff (st : Log.State) (ss : List ServiceEntry) (hst : st.Reachable)
    (hnames : (ss.map (·.name)).Nodup) : RegistersWell st ss ↔
      ((∀ s ∈ ss.head?, SingleBit s.id) ∧ ∀ s ∈ firstWrong ss, Caught s.id) ∧
      ((∀ s ∈ ss, SingleBit s.id) → (ss.map (·.id)).Nodup → OneNamed ss) := by
  have hnamed (hsingle : ∀ s ∈ ss, SingleBit s.id) (hids : (ss.map (·.id)).Nodup) :
      (∃ r, registerAll st ss = .ok r ∧ ∀ s ∈ ss, r.modNames (Log.lModlevel2modnum s.id) = s.name) ↔ OneNamed ss := by
    rw [← names_kept_iff hnames hsingle hids, registers_single hst hnames hsingle]
    simp
  constructor
  · intro h
    refine ⟨(reports_iff hst hnames).mp h.reports, fun hsingle hids => ?_⟩
    exact (hnamed hsingle hids).mp (h.named hsingle hids)
  · rintro ⟨hcheck, hone⟩
    refine ⟨(reports_iff hst hnames).mpr hcheck, fun hsingle hids => ?_⟩
    exact (hnamed hsingle hids).mpr (hone hsingle hids)

/-- A second service with bits 0 and 4 is reported. -/
theorem two_bits_caught : RegistersWell .start [⟨cstr "rarp", 1⟩, ⟨cstr "both", 17⟩] := by
  refine (service_ids_iff .start [⟨cstr "rarp", 1⟩, ⟨cstr "both", 17⟩] .start (by decide)).mpr ⟨⟨?_, ?_⟩, ?_⟩
  · intro s hs
    cases hs
    decide
  · intro s hs
    obtain rfl : ⟨cstr "both", 17⟩ = s := Option.some.inj hs
    decide
  · intro hsingle
    exact absurd (hsingle ⟨cstr "both", 17⟩ (by decide)) (by decide)

/-- **Counterexample**: the services of the program. -/
theorem services_unnamed : ¬∀ (st : Log.State) (ss : List ServiceEntry), st.Reachable →
    (ss.map (·.name)).Nodup → RegistersWell st ss := by
  intro hall
  have hwell := hall .start initialServices .start (by decide)
  obtain ⟨r, hrun, hfound⟩ := hwell.named (by decide) (by decide)
  have hr := ((registerAll_ok_iff .start (by decide)).mp hrun).2
  subst hr
  exact absurd (hfound ⟨cstr "dhcp", 2⟩ (by decide)) (by decide)

end Bootd
