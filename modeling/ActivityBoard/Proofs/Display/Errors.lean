import ActivityBoard.Proofs.Display.Annotation
import ActivityBoard.Proofs.Display.PathText

namespace ActivityBoard.Display

section Members

variable {path : Path} {n : Node} {v : Json} {key : String}

theorem mem_fieldNodes {fields : Fields} (h : fields.get? key = some v)
    (hn : n ∈ nodes (path ++ [.field key]) v) : n ∈ fieldNodes path fields := by
  induction fields with
  | nil => cases h
  | cons field rest ih =>
    obtain ⟨k, w⟩ := field
    rw [fieldNodes]
    rw [Fields.get?_cons] at h
    split at h
    · rename_i hk
      cases h
      exact List.mem_append_left _ (hk ▸ hn)
    · exact List.mem_append_right _ (ih h)

theorem mem_itemNodes {items : List Json} {start i : Nat} (h : items[i]? = some v)
    (hn : n ∈ nodes (path ++ [.item (start + i)]) v) : n ∈ itemNodes path start items := by
  induction items generalizing start i with
  | nil => cases h
  | cons w rest ih =>
    rw [itemNodes]
    cases i with
    | zero =>
      cases h
      exact List.mem_append_left _ hn
    | succ i =>
      apply List.mem_append_right
      apply ih h
      rwa [Nat.succ_add_eq_add_succ]

theorem mem_nodes_entry {fields row : Fields} {list : String} {items : List Json} {i : Nat}
    (hlist : fields.get? list = some (.arr items)) (hitem : items[i]? = some (.obj row))
    (hkey : row.get? key = some v) (hv : isScalar v = true) :
    ⟨Path.entry list i key, .scalar v⟩ ∈ nodes [] (.obj fields) := by
  have hnode : (⟨Path.entry list i key, .scalar v⟩ : Node) ∈ nodes (Path.entry list i key) v := by
    rw [nodes_of_isScalar hv]
    exact List.mem_singleton_self _
  have hrow : (⟨Path.entry list i key, .scalar v⟩ : Node) ∈
      nodes [.field list, .item i] (.obj row) := by
    rw [nodes]
    exact List.mem_cons_of_mem _ (mem_fieldNodes hkey hnode)
  have hitems : (⟨Path.entry list i key, .scalar v⟩ : Node) ∈
      nodes [.field list] (.arr items) := by
    rw [nodes]
    apply List.mem_cons_of_mem
    apply mem_itemNodes hitem
    rwa [Nat.zero_add]
  rw [nodes]
  exact List.mem_cons_of_mem _ (mem_fieldNodes hlist hitems)

end Members

section Distinct

theorem Step.not_before_self (s : Step) : ¬ s.Before s := by
  cases s with
  | field key => exact String.lt_irrefl key
  | item index => exact Nat.lt_irrefl index

theorem Path.not_before_self (p : Path) : ¬ p.Before p := by
  induction p with
  | nil => nofun
  | cons step p ih =>
    intro h
    cases h with
    | rel hstep => exact step.not_before_self hstep
    | cons hp => exact ih hp

theorem Node.path_of_error? {n : Node} {e : FieldError} (h : n.error? = some e) :
    e.path = n.path := by
  obtain ⟨m, -, h⟩ := Option.bind_eq_some_iff.1 h
  obtain ⟨text, -, rfl⟩ := Option.map_eq_some_iff.1 h
  rfl

theorem InOrder.filter_errors {all : List Node} {n : Node} (h : InOrder all) (hn : n ∈ all) :
    (all.filterMap Node.error?).filter (fun e => e.path = n.path) = n.error?.toList := by
  induction all with
  | nil => cases hn
  | cons first rest ih =>
    obtain ⟨hfirst, hrest⟩ := List.pairwise_cons.1 h
    obtain rfl | hn := List.mem_cons.1 hn
    · -- Nothing of the rest stands where the first one does.
      have hothers : (rest.filterMap Node.error?).filter (fun e => e.path = n.path) = [] := by
        apply List.filter_eq_nil_iff.2
        intro e he hpath
        obtain ⟨other, hother, herror⟩ := List.mem_filterMap.1 he
        have hbefore := hfirst other hother
        rw [← Node.path_of_error? herror, of_decide_eq_true hpath] at hbefore
        exact Path.not_before_self _ hbefore
      cases herror : n.error? with
      | none => rw [List.filterMap_cons_none herror, hothers, Option.toList_none]
      | some e =>
        rw [List.filterMap_cons_some herror, List.filter_cons_of_pos, hothers, Option.toList_some]
        exact decide_eq_true (Node.path_of_error? herror)
    · have hne : first.path ≠ n.path := fun he =>
        Path.not_before_self n.path (he ▸ hfirst n hn)
      cases herror : first.error? with
      | none => rw [List.filterMap_cons_none herror, ih hrest hn]
      | some e =>
        rw [List.filterMap_cons_some herror, List.filter_cons_of_neg, ih hrest hn]
        rw [decide_eq_true_iff, Node.path_of_error? herror]
        exact hne

end Distinct

section Annotated

variable {context : Context} {v : Json} {fields : Fields} {n : Node} {e : FieldError}

theorem errors_at (context : Context) (hv : v.Canonical) (hn : n ∈ nodes [] v) :
    (annotate context v).2.filter (fun e => e.path = n.path) = n.error?.toList := by
  rw [(renders_annotate context v).2]
  exact (inOrder_nodes [] v hv).filter_errors hn

theorem exists_key_of_error (he : e ∈ (annotate context (.obj fields)).2) :
    ∃ key ∈ fields.map Prod.fst, ∃ rest, e.path = .field key :: rest := by
  rw [(renders_annotate context (.obj fields)).2] at he
  obtain ⟨n, hn, herror⟩ := List.mem_filterMap.1 he
  rw [Node.path_of_error? herror]
  rw [nodes] at hn
  obtain rfl | hn := List.mem_cons.1 hn
  · cases herror
  · obtain ⟨key, hkey, rest, hpath⟩ := prefix_of_mem_fieldNodes [] fields n hn
    exact ⟨key, hkey, rest, hpath.symm⟩

end Annotated

end ActivityBoard.Display
