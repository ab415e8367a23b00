import ActivityBoard.Proofs.Sample.Shape

namespace ActivityBoard

def Json.IsContainer (v : Json) : Prop := (∃ items, v = .arr items) ∨ v.IsObject

theorem Metric.ofJson?_eq_none_iff {v : Json} : ofJson? v = none ↔ v.IsContainer := by
  cases v <;> simp [ofJson?, Json.IsContainer, Json.IsObject]

namespace Fields

theorem without_insert {f : Fields} {keys : List String} {key : String} (h : key ∈ keys)
    (v : Json) :
    (f.insert key v).without keys = f.without keys := by
  have hdrop (v : Json) (rest : Fields) : without ((key, v) :: rest) keys = without rest keys :=
    List.filter_cons_of_neg (by simpa using h)
  induction f with
  | nil => exact hdrop v []
  | cons field rest ih =>
    obtain ⟨j, w⟩ := field
    rw [insert]
    split
    · rename_i hkey
      subst hkey
      rw [hdrop, hdrop]
    · split
      · exact hdrop v _
      · simp only [without, List.filter_cons] at ih ⊢
        rw [ih]

section Agreement

variable {α : Type} {f g : Fields} {key : String}

theorem value_congr (h : g.get? key = f.get? key) : g.value key = f.value key := by
  rw [value, value, h]

theorem rows?_congr {row : Fields → Option α} (h : g.get? key = f.get? key) :
    g.rows? row key = f.rows? row key := by
  rw [rows?, rows?, h]

theorem section?_congr {make : Fields → α} (h : g.get? key = f.get? key) :
    g.section? make key = f.section? make key := by
  rw [section?, section?, value_congr h]

theorem required?_congr {make : Fields → α} (h : g.get? key = f.get? key) :
    g.required? make key = f.required? make key := by
  rw [required?, required?, h]

end Agreement

section Row

variable {α : Type} {make : Fields → Option α} {f row : Fields} {key : String}
  {front back : List Json} {items : List α}

theorem mapM_replaced
    (h : ((front ++ .obj row :: back).mapM fun item => item.fields?.bind make) = some items) :
    ∃ before a after, items = before ++ a :: after ∧ before.length = front.length ∧
      make row = some a ∧ ∀ other : Fields,
        ((front ++ .obj other :: back).mapM fun item => item.fields?.bind make) =
          (make other).map fun b => before ++ b :: after := by
  induction front generalizing items with
  | nil =>
    rw [List.nil_append, List.mapM_cons] at h
    obtain ⟨a, ha, h⟩ := Option.bind_eq_some_iff.1 h
    obtain ⟨after, hafter, h⟩ := Option.bind_eq_some_iff.1 h
    cases h
    refine ⟨[], a, after, rfl, rfl, ha, fun other => ?_⟩
    rw [List.nil_append, List.mapM_cons, hafter]
    change (make other).bind _ = _
    cases make other <;> rfl
  | cons item front ih =>
    rw [List.cons_append, List.mapM_cons] at h
    obtain ⟨first, hfirst, h⟩ := Option.bind_eq_some_iff.1 h
    obtain ⟨rest, hrest, h⟩ := Option.bind_eq_some_iff.1 h
    cases h
    obtain ⟨before, a, after, rfl, hlength, ha, hother⟩ := ih hrest
    refine ⟨first :: before, a, after, rfl, congrArg Nat.succ hlength, ha, fun other => ?_⟩
    rw [List.cons_append, List.mapM_cons, hfirst, hother other]
    cases make other <;> rfl

theorem rows?_replaced (hf : f.get? key = some (.arr (front ++ .obj row :: back)))
    (h : f.rows? make key = some items) :
    ∃ before a after, items = before ++ a :: after ∧ before.length = front.length ∧
      make row = some a ∧ ∀ other : Fields,
        (f.insert key (.arr (front ++ .obj other :: back))).rows? make key =
          (make other).map fun b => before ++ b :: after := by
  rw [rows?, hf] at h
  obtain ⟨before, a, after, hitems, hlength, ha, hother⟩ := mapM_replaced h
  refine ⟨before, a, after, hitems, hlength, ha, fun other => ?_⟩
  rw [rows?, get?_insert, if_pos rfl]
  exact hother other

end Row

end Fields

theorem NumaMemory.ofFields?_insert {row : Fields} {n : NumaMemory} (h : ofFields? row = some n)
    (w : Json) : ofFields? (row.insert "frag" w) =
      (Metric.ofJson? w).map fun m => { n with fragmentation := m } := by
  obtain ⟨m, -, rfl⟩ := Option.map_eq_some_iff.1 h
  rw [ofFields?, Fields.metric?, Fields.value, Fields.get?_insert, if_pos rfl,
    Fields.without_insert (List.mem_singleton_self _)]
  rfl

theorem CacheDomain.ofFields?_insert {row : Fields} {c : CacheDomain} (h : ofFields? row = some c)
    (w : Json) : ofFields? (row.insert "occupancy" w) =
      (Metric.ofJson? w).map fun m => { c with occupancy := m } := by
  obtain ⟨m, -, rfl⟩ := Option.map_eq_some_iff.1 h
  rw [ofFields?, Fields.metric?, Fields.value, Fields.get?_insert, if_pos rfl,
    Fields.without_insert (List.mem_singleton_self _)]
  rfl

namespace Sample

section Lists

variable {f g : Fields} {s : Sample}

/-- Objects that differ under `NUM` and `LLC` only are samples that differ in these lists only. -/
theorem ofFields?_of_agree (h : ofFields? f = some s)
    (hget : ∀ key, key ≠ "NUM" → key ≠ "LLC" → g.get? key = f.get? key)
    (hextra : g.without keys = f.without keys) :
    ofFields? g = (g.rows? NumaMemory.ofFields? "NUM").bind fun nodes =>
      (g.rows? CacheDomain.ofFields? "LLC").map fun caches =>
        { s with numaMemory := nodes, caches := caches } := by
  unfold ofFields? at h ⊢
  obtain ⟨cpu, hcpu, h⟩ := Option.bind_eq_some_iff.1 h
  obtain ⟨cores, hcores, h⟩ := Option.bind_eq_some_iff.1 h
  obtain ⟨load, hload, h⟩ := Option.bind_eq_some_iff.1 h
  obtain ⟨memory, hmemory, h⟩ := Option.bind_eq_some_iff.1 h
  obtain ⟨pressure, hpressure, h⟩ := Option.bind_eq_some_iff.1 h
  obtain ⟨volumes, hvolumes, h⟩ := Option.bind_eq_some_iff.1 h
  obtain ⟨disks, hdisks, h⟩ := Option.bind_eq_some_iff.1 h
  obtain ⟨interfaces, hinterfaces, h⟩ := Option.bind_eq_some_iff.1 h
  obtain ⟨numaMemory, -, h⟩ := Option.bind_eq_some_iff.1 h
  obtain ⟨numaCpu, hnumaCpu, h⟩ := Option.bind_eq_some_iff.1 h
  obtain ⟨caches, -, h⟩ := Option.bind_eq_some_iff.1 h
  obtain ⟨identities, hidentities, h⟩ := Option.bind_eq_some_iff.1 h
  obtain ⟨cpuUse, hcpuUse, h⟩ := Option.bind_eq_some_iff.1 h
  obtain ⟨memoryUse, hmemoryUse, h⟩ := Option.bind_eq_some_iff.1 h
  obtain ⟨diskUse, hdiskUse, h⟩ := Option.bind_eq_some_iff.1 h
  cases h
  have here (key : String) (hkey : key ≠ "NUM" ∧ key ≠ "LLC") : g.get? key = f.get? key :=
    hget key hkey.1 hkey.2
  rw [Fields.required?_congr (here "CPU" (by decide)), hcpu,
    Fields.rows?_congr (here "cpu" (by decide)), hcores,
    Fields.section?_congr (here "CPL" (by decide)), hload,
    Fields.section?_congr (here "MEM" (by decide)), hmemory,
    Fields.section?_congr (here "PSI" (by decide)), hpressure,
    Fields.rows?_congr (here "LVM" (by decide)), hvolumes,
    Fields.rows?_congr (here "DSK" (by decide)), hdisks,
    Fields.rows?_congr (here "NET" (by decide)), hinterfaces,
    Fields.rows?_congr (here "NUC" (by decide)), hnumaCpu,
    Fields.rows?_congr (here "PRG" (by decide)), hidentities,
    Fields.rows?_congr (here "PRC" (by decide)), hcpuUse,
    Fields.rows?_congr (here "PRM" (by decide)), hmemoryUse,
    Fields.rows?_congr (here "PRD" (by decide)), hdiskUse,
    Fields.value_congr (here "timestamp" (by decide)),
    Fields.value_congr (here "elapsed" (by decide)), hextra]
  cases g.rows? NumaMemory.ofFields? "NUM" with
  | none => rfl
  | some nodes => cases g.rows? CacheDomain.ofFields? "LLC" <;> rfl

theorem rows?_of_ofFields? (h : ofFields? f = some s) :
    f.rows? NumaMemory.ofFields? "NUM" = some s.numaMemory ∧
      f.rows? CacheDomain.ofFields? "LLC" = some s.caches := by
  have hread := (ofFields?_of_agree h (fun _ _ _ => rfl) rfl).symm.trans h
  obtain ⟨nodes, hnodes, hread⟩ := Option.bind_eq_some_iff.1 hread
  obtain ⟨caches, hcaches, hs⟩ := Option.map_eq_some_iff.1 hread
  exact ⟨hnodes.trans (congrArg (fun t => some t.numaMemory) hs),
    hcaches.trans (congrArg (fun t => some t.caches) hs)⟩

theorem ofFields?_insert_numaMemory (h : ofFields? f = some s) (v : Json) :
    ofFields? (f.insert "NUM" v) = ((f.insert "NUM" v).rows? NumaMemory.ofFields? "NUM").map
      fun nodes => { s with numaMemory := nodes } := by
  have hget (key : String) (hkey : key ≠ "NUM") : (f.insert "NUM" v).get? key = f.get? key := by
    rw [Fields.get?_insert, if_neg hkey]
  rw [ofFields?_of_agree h (fun key hkey _ => hget key hkey)
      (Fields.without_insert (by decide) v),
    Fields.rows?_congr (hget "LLC" (by decide)), (rows?_of_ofFields? h).2,
    Option.map_eq_bind]
  rfl

theorem ofFields?_insert_caches (h : ofFields? f = some s) (v : Json) :
    ofFields? (f.insert "LLC" v) = ((f.insert "LLC" v).rows? CacheDomain.ofFields? "LLC").map
      fun caches => { s with caches := caches } := by
  have hget (key : String) (hkey : key ≠ "LLC") : (f.insert "LLC" v).get? key = f.get? key := by
    rw [Fields.get?_insert, if_neg hkey]
  rw [ofFields?_of_agree h (fun key _ hkey => hget key hkey)
      (Fields.without_insert (by decide) v),
    Fields.rows?_congr (hget "NUM" (by decide)), (rows?_of_ofFields? h).1]
  rfl

end Lists

/-- The result of a reading in which `w` stands for a metric: `sample` with that metric, but no
sample at all where `w` is a list or an object. -/
structure ReadsMetric (w : Json) (sample : Metric → Sample) (result : Except SampleError Sample) :
    Prop where
  scalar : ¬ w.IsContainer → ∃ m, Metric.ofJson? w = some m ∧ result = .ok (sample m)
  container : w.IsContainer → result = .error .wrongShape

/-- What becomes of the sample `s`, which was read from `f`, when any value `w` replaces the metric
of any row. -/
structure MetricReplaced (f : Fields) (s : Sample) : Prop where
  fragmentation : ∀ front row back, f.get? "NUM" = some (.arr (front ++ .obj row :: back)) →
    ∃ before node after, s.numaMemory = before ++ node :: after ∧ before.length = front.length ∧
      NumaMemory.ofFields? row = some node ∧ ∀ w, ReadsMetric w
        (fun m => { s with numaMemory := before ++ { node with fragmentation := m } :: after })
        (ofJson (.obj (f.insert "NUM" (.arr (front ++ .obj (row.insert "frag" w) :: back)))))
  occupancy : ∀ front row back, f.get? "LLC" = some (.arr (front ++ .obj row :: back)) →
    ∃ before cache after, s.caches = before ++ cache :: after ∧ before.length = front.length ∧
      CacheDomain.ofFields? row = some cache ∧ ∀ w, ReadsMetric w
        (fun m => { s with caches := before ++ { cache with occupancy := m } :: after })
        (ofJson (.obj (f.insert "LLC" (.arr (front ++ .obj (row.insert "occupancy" w) :: back)))))

theorem readsMetric_of_map {f : Fields} {w : Json} {sample : Metric → Sample}
    (h : ofFields? f = (Metric.ofJson? w).map sample) :
    ReadsMetric w sample (ofJson (.obj f)) := by
  rw [ofJson_obj, h]
  constructor
  · intro hw
    rw [← Metric.ofJson?_eq_none_iff] at hw
    obtain ⟨m, hm⟩ := Option.ne_none_iff_exists'.1 hw
    exact ⟨m, hm, by rw [hm]; rfl⟩
  · intro hw
    rw [Metric.ofJson?_eq_none_iff.2 hw]
    rfl

theorem metricReplaced_of_ofJson {f : Fields} {s : Sample} (h : ofJson (.obj f) = .ok s) :
    MetricReplaced f s where
  fragmentation front row back hf := by
    have hs := ofJson_obj_eq_ok_iff.1 h
    obtain ⟨before, node, after, hnodes, hlength, hnode, hother⟩ :=
      Fields.rows?_replaced hf (rows?_of_ofFields? hs).1
    refine ⟨before, node, after, hnodes, hlength, hnode, fun w => ?_⟩
    apply readsMetric_of_map
    rw [ofFields?_insert_numaMemory hs, hother, NumaMemory.ofFields?_insert hnode, Option.map_map,
      Option.map_map]
    rfl
  occupancy front row back hf := by
    have hs := ofJson_obj_eq_ok_iff.1 h
    obtain ⟨before, cache, after, hcaches, hlength, hcache, hother⟩ :=
      Fields.rows?_replaced hf (rows?_of_ofFields? hs).2
    refine ⟨before, cache, after, hcaches, hlength, hcache, fun w => ?_⟩
    apply readsMetric_of_map
    rw [ofFields?_insert_caches hs, hother, CacheDomain.ofFields?_insert hcache, Option.map_map,
      Option.map_map]
    rfl

def fragmented (w : Json) : Fields :=
  [("LLC", .arr [.obj [("occupancy", .str "n/a")]]), ("NUM", .arr [.obj [("frag", w)]])]

theorem metricReplaced_fragmented : ∃ s, ofJson (.obj (fragmented (.int 1))) = .ok s ∧
    s.numaMemory.map (·.fragmentation) = [.number 1] ∧
    MetricReplaced (fragmented (.int 1)) s := by
  have hread : (ofFields? (fragmented (.int 1))).isSome = true := by decide +kernel
  obtain ⟨s, hs⟩ := Option.isSome_iff_exists.1 hread
  have hnodes : (ofFields? (fragmented (.int 1))).map (·.numaMemory.map (·.fragmentation)) =
      some [.number 1] := by decide +kernel
  rw [hs] at hnodes
  have hjson := ofJson_obj_eq_ok_iff.2 hs
  exact ⟨s, hjson, Option.some.inj hnodes, metricReplaced_of_ofJson hjson⟩

/-- A list in place of the one number takes the sample away. -/
theorem fragmented_list_rejected :
    (ofText (Json.obj (fragmented (.int 1))).compact).toOption.isSome = true ∧
    fragmented (.arr [.int 1]) = (fragmented (.int 1)).insert "NUM"
      (.arr [.obj (Fields.insert [("frag", .int 1)] "frag" (.arr [.int 1]))]) ∧
    (ofText (Json.obj (fragmented (.arr [.int 1]))).compact).toOption.isSome = false := by
  refine ⟨?_, rfl, ?_⟩ <;> decide +kernel

end Sample

end ActivityBoard
