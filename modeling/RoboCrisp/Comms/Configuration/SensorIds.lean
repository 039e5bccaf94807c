import Mathlib.Data.List.Nodup
import RoboCrisp.Comms.Configuration.History

namespace RoboCrisp.Comms

open RoboCrisp.Stream RoboCrisp.Util

-- Every module begins to number its sensors at zero.

theorem nodup_flatMap_range_iff (counts : List Nat) :
    (counts.flatMap List.range).Nodup ↔ (counts.filter fun count => count ≠ 0).length ≤ 1 := by
  induction counts with
  | nil => simp
  | cons count counts ih =>
      rw [List.flatMap_cons, List.nodup_append]
      cases count with
      | zero => simpa using ih
      | succ n =>
          rw [List.filter_cons_of_pos (by simp), List.length_cons, Nat.succ_le_succ_iff,
            Nat.le_zero, List.length_eq_zero_iff]
          constructor
          · rintro ⟨-, -, hdisjoint⟩
            rw [List.filter_eq_nil_iff]
            intro other hother hpos
            have hzero : 0 ∈ counts.flatMap List.range :=
              List.mem_flatMap.mpr ⟨other, hother, List.mem_range.mpr (by
                have := of_decide_eq_true hpos
                omega)⟩
            exact hdisjoint 0 (by simp) 0 hzero rfl
          · intro hnone
            have hempty : counts.flatMap List.range = [] := by
              rw [List.flatMap_eq_nil_iff]
              intro other hother
              have hzero := List.filter_eq_nil_iff.mp hnone other hother
              have heq : other = 0 := by simpa using hzero
              rw [heq, List.range_zero]
            rw [hempty]
            exact ⟨List.nodup_range, List.nodup_nil, fun _ _ _ h => absurd h List.not_mem_nil⟩

namespace Configuration

variable {Declared : DataDeclaration → Prop} {c : Configuration}

def sensorIds (c : Configuration) : List (BitVec 10) :=
  (c.modules.elems.getD []).flatMap fun m => (m.sensors.elems.getD []).map Sensor.id

-- The modules that have sensors.
def carriers (c : Configuration) : List Module :=
  (c.modules.elems.getD []).filter fun m => m.num_sensors ≠ 0

-- No two sensors have the same id, and that is so after a round trip into any other object, too.
structure KeepsSensorsApart [Heap] (c : Configuration) : Prop where
  distinct : c.sensorIds.Nodup
  decoded : ∀ bytes, c.encoding = some bytes → ∀ (target : Configuration) (old : List Module),
    target.modules.Contains old → ∀ (buf buf' : DecodeBuffer) (suffix : Bytes) (r : DecodeResult)
      (out : Configuration), buf.rest = bytes ++ suffix → target.decode buf = some ((r, out), buf') →
      out.sensorIds.Nodup

theorem ids_of_dense {m : Module} (h : m.Dense Declared) :
    ((m.sensors.elems.getD []).map Sensor.id).map BitVec.toNat = List.range m.num_sensors.toNat := by
  obtain ⟨sensors, hholds, horder, hcount, -⟩ := h.sensors
  rw [hholds.elems, Option.getD_some, List.map_map, hcount, ← horder.ids]
  rfl

theorem Ordered.sensorIds_eq (h : c.Ordered Declared) :
    c.sensorIds.map BitVec.toNat =
      ((c.modules.elems.getD []).map fun m => m.num_sensors.toNat).flatMap List.range := by
  obtain ⟨modules, hcontains, horder, -⟩ := h
  rw [sensorIds, hcontains.elems, Option.getD_some, List.map_flatMap, List.flatMap_map]
  exact List.flatMap_congr fun m hm => ids_of_dense (horder.good m hm)

theorem Ordered.nodup_iff (h : c.Ordered Declared) :
    c.sensorIds.Nodup ↔ c.carriers.length ≤ 1 := by
  have hinj : Function.Injective (BitVec.toNat (w := 10)) := fun _ _ => BitVec.eq_of_toNat_eq
  rw [← List.nodup_map_iff hinj, h.sensorIds_eq, nodup_flatMap_range_iff, List.filter_map,
    List.length_map, carriers]
  have hpred : ((fun count : Nat => decide (count ≠ 0)) ∘ fun m : Module => m.num_sensors.toNat) =
      fun m : Module => decide (m.num_sensors ≠ 0) := by
    funext m
    exact decide_eq_decide.mpr (not_congr (UInt8.toNat_inj (b := 0)))
  rw [hpred]

theorem Ordered.nodup_decode [Heap] {target out : Configuration} {old : List Module}
    (h : c.Ordered Declared) {bytes suffix : Bytes} (hencoding : c.encoding = some bytes)
    (hold : target.modules.Contains old) {buf buf' : DecodeBuffer} {r : DecodeResult}
    (hrest : buf.rest = bytes ++ suffix) (hdecode : target.decode buf = some ((r, out), buf')) :
    out.sensorIds.Nodup ↔ c.sensorIds.Nodup := by
  obtain ⟨modules, outs, hcontains, houts, hcount, horder, hjoin⟩ :=
    h.decode_encoding hencoding hold hrest hdecode
  have hout : out.Ordered fun _ => True := by
    refine ⟨outs, houts, horder.of_forall₂ hjoin ?_, hcount⟩
    rintro m o hdense ⟨item, hm, ho⟩
    exact dense_of_matches hdense hm ho
  have hcounts : modules.map (fun m => m.num_sensors.toNat) =
      outs.map (fun m => m.num_sensors.toNat) := by
    refine List.forall₂_eq_eq_eq ▸ List.forall₂_map_left_iff.mpr
      (List.forall₂_map_right_iff.mpr (hjoin.imp ?_))
    rintro m o ⟨item, hm, ho⟩
    rw [hm.1.num_sensors_eq, ho.1.num_sensors_eq]
  have hinj : Function.Injective (BitVec.toNat (w := 10)) := fun _ _ => BitVec.eq_of_toNat_eq
  rw [← List.nodup_map_iff hinj, ← List.nodup_map_iff hinj, h.sensorIds_eq, hout.sensorIds_eq,
    hcontains.elems, houts.elems, Option.getD_some, Option.getD_some, hcounts]

theorem Built.keepsSensorsApart_iff [Heap] (h : c.Built fun _ => True) :
    c.KeepsSensorsApart ↔ c.carriers.length ≤ 1 := by
  have hordered := h.numbered.ordered
  rw [← hordered.nodup_iff]
  refine ⟨fun hkeeps => hkeeps.distinct, fun hdistinct => ⟨hdistinct, ?_⟩⟩
  intro bytes hencoding target old hold buf buf' suffix r out hrest hdecode
  exact (hordered.nodup_decode hencoding hold hrest hdecode).mpr hdistinct

theorem gauge_no_nul : (0 : UInt8) ∉ [97] := by decide

-- One sensor, and a second one that another module gets.
def gauge (i : Nat) : BuildStep := .add_sensor i ⟨[97], gauge_no_nul⟩ .SWITCH .empty .POLL

def gaugeSteps : List BuildStep := [.add_module .none, gauge 0]

def twinSteps : List BuildStep := gaugeSteps ++ [.add_module .none, gauge 1]

def gauged : Configuration := (gaugeSteps.foldlM BuildStep.runWithin (empty 0)).get (by decide)

def twins : Configuration := (twinSteps.foldlM BuildStep.runWithin (empty 0)).get (by decide)

theorem allowed_twinSteps : ∀ step ∈ twinSteps, step.Allowed fun _ => True := by
  simp [twinSteps, gaugeSteps, gauge, BuildStep.Allowed]

theorem gauged_keepsSensorsApart : @KeepsSensorsApart Heap.zeros gauged := by
  let _ := Heap.zeros
  have hbuilt : gauged.Built fun _ => True :=
    (Built.empty 0).run_steps (fun step hstep => allowed_twinSteps step (List.mem_append_left _ hstep))
      (Option.some_get _).symm
  exact hbuilt.keepsSensorsApart_iff.mpr (by decide)

theorem twins_not_keepsSensorsApart :
    ¬∀ c : Configuration, (c.Built fun _ => True) → @KeepsSensorsApart Heap.zeros c := by
  intro h
  have hbuilt : twins.Built fun _ => True :=
    (Built.empty 0).run_steps allowed_twinSteps (Option.some_get _).symm
  exact absurd (@KeepsSensorsApart.distinct Heap.zeros _ (h twins hbuilt)) (by decide)

end Configuration

end RoboCrisp.Comms
