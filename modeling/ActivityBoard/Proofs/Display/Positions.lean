import ActivityBoard.Proofs.Display.Nodes

namespace ActivityBoard.Display

section Determined

variable {path : Path} {v w : Json} {a b : List Node}

theorem eq_of_leaf (hv : nodes path v = [⟨path, .scalar v⟩])
    (h : nodes path v ++ a = nodes path w ++ b) : v = w ∧ a = b := by
  rw [hv] at h
  cases w with
  | arr items => cases h
  | obj fields => cases h
  | _ =>
    cases h
    exact ⟨rfl, rfl⟩

mutual

theorem eq_of_nodes_append (path : Path) : (v w : Json) → (a b : List Node) →
    nodes path v ++ a = nodes path w ++ b → v = w ∧ a = b
  | .obj fields, w, a, b, h => by
    cases w with
    | obj others =>
      rw [nodes, nodes, List.cons_append, List.cons_append] at h
      injection h with hhead htail
      injection hhead with _ hcontent
      injection hcontent with hkeys
      obtain ⟨rfl, rfl⟩ := eq_of_fieldNodes_append path fields others a b hkeys htail
      exact ⟨rfl, rfl⟩
    | _ => cases h
  | .arr items, w, a, b, h => by
    cases w with
    | arr others =>
      rw [nodes, nodes, List.cons_append, List.cons_append] at h
      injection h with hhead htail
      injection hhead with _ hcontent
      injection hcontent with hcount
      obtain ⟨rfl, rfl⟩ := eq_of_itemNodes_append path 0 items others a b hcount htail
      exact ⟨rfl, rfl⟩
    | _ => cases h
  | .null, _, _, _, h => eq_of_leaf rfl h
  | .bool _, _, _, _, h => eq_of_leaf rfl h
  | .int _, _, _, _, h => eq_of_leaf rfl h
  | .float _, _, _, _, h => eq_of_leaf rfl h
  | .str _, _, _, _, h => eq_of_leaf rfl h

theorem eq_of_fieldNodes_append (path : Path) : (fields others : Fields) → (a b : List Node) →
    fields.map Prod.fst = others.map Prod.fst →
    fieldNodes path fields ++ a = fieldNodes path others ++ b → fields = others ∧ a = b
  | [], [], _, _, _, h => ⟨rfl, h⟩
  | [], _ :: _, _, _, hkeys, _ => by cases hkeys
  | _ :: _, [], _, _, hkeys, _ => by cases hkeys
  | (key, v) :: rest, (key', w) :: others, a, b, hkeys, h => by
    injection hkeys with hkey hrest
    cases hkey
    rw [fieldNodes, fieldNodes, List.append_assoc, List.append_assoc] at h
    obtain ⟨rfl, htail⟩ := eq_of_nodes_append _ v w _ _ h
    obtain ⟨rfl, rfl⟩ := eq_of_fieldNodes_append path rest others a b hrest htail
    exact ⟨rfl, rfl⟩

theorem eq_of_itemNodes_append (path : Path) (index : Nat) : (items others : List Json) →
    (a b : List Node) → items.length = others.length →
    itemNodes path index items ++ a = itemNodes path index others ++ b → items = others ∧ a = b
  | [], [], _, _, _, h => ⟨rfl, h⟩
  | [], _ :: _, _, _, hcount, _ => by cases hcount
  | _ :: _, [], _, _, hcount, _ => by cases hcount
  | v :: rest, w :: others, a, b, hcount, h => by
    rw [itemNodes, itemNodes, List.append_assoc, List.append_assoc] at h
    obtain ⟨rfl, htail⟩ := eq_of_nodes_append _ v w _ _ h
    obtain ⟨rfl, rfl⟩ := eq_of_itemNodes_append path (index + 1) rest others a b
      (Nat.succ.inj hcount) htail
    exact ⟨rfl, rfl⟩

end

theorem nodes_injective (path : Path) (h : nodes path v = nodes path w) : v = w :=
  (eq_of_nodes_append path v w [] [] (by rw [h])).1

end Determined

/-- Keys come in ascending order, items by index. -/
def Step.Before : Step → Step → Prop
  | .field j, .field k => j < k
  | .item i, .item j => i < j
  | _, _ => False

/-- A value stands in front of the values in it, and those in order. -/
def Path.Before (p q : Path) : Prop := List.Lex Step.Before p q

section Order

variable {path : Path} {s t : Step}

theorem Path.before_append (path : Path) (h : s.Before t) (p q : Path) :
    Path.Before (path ++ s :: p) (path ++ t :: q) := by
  induction path with
  | nil => exact .rel h
  | cons step path ih => exact .cons ih

theorem Path.before_extended (path : Path) (s : Step) (p : Path) :
    Path.Before path (path ++ s :: p) := by
  induction path with
  | nil => exact .nil
  | cons step path ih => exact .cons ih

theorem Path.before_of_prefix {p q : Path} (h : s.Before t) (hp : path ++ [s] <+: p)
    (hq : path ++ [t] <+: q) : Path.Before p q := by
  obtain ⟨p, rfl⟩ := hp
  obtain ⟨q, rfl⟩ := hq
  rw [List.append_assoc, List.append_assoc]
  exact Path.before_append path h p q

mutual

theorem prefix_of_mem_nodes (path : Path) : (v : Json) → ∀ n ∈ nodes path v, path <+: n.path
  | .obj fields, n, hn => by
    rw [nodes] at hn
    obtain rfl | hn := List.mem_cons.1 hn
    · exact List.prefix_rfl
    · obtain ⟨key, _, hprefix⟩ := prefix_of_mem_fieldNodes path fields n hn
      exact (List.prefix_append ..).trans hprefix
  | .arr items, n, hn => by
    rw [nodes] at hn
    obtain rfl | hn := List.mem_cons.1 hn
    · exact List.prefix_rfl
    · obtain ⟨i, _, hprefix⟩ := prefix_of_mem_itemNodes path 0 items n hn
      exact (List.prefix_append ..).trans hprefix
  | .null, n, hn => by cases List.mem_singleton.1 hn; exact List.prefix_rfl
  | .bool _, n, hn => by cases List.mem_singleton.1 hn; exact List.prefix_rfl
  | .int _, n, hn => by cases List.mem_singleton.1 hn; exact List.prefix_rfl
  | .float _, n, hn => by cases List.mem_singleton.1 hn; exact List.prefix_rfl
  | .str _, n, hn => by cases List.mem_singleton.1 hn; exact List.prefix_rfl

theorem prefix_of_mem_fieldNodes (path : Path) : (fields : Fields) →
    ∀ n ∈ fieldNodes path fields, ∃ key ∈ fields.map Prod.fst, path ++ [.field key] <+: n.path
  | [], _, hn => by cases hn
  | (key, v) :: rest, n, hn => by
    rw [fieldNodes] at hn
    obtain hn | hn := List.mem_append.1 hn
    · exact ⟨key, List.mem_cons_self, prefix_of_mem_nodes _ v n hn⟩
    · obtain ⟨k, hk, hprefix⟩ := prefix_of_mem_fieldNodes path rest n hn
      exact ⟨k, List.mem_cons_of_mem _ hk, hprefix⟩

theorem prefix_of_mem_itemNodes (path : Path) (index : Nat) : (items : List Json) →
    ∀ n ∈ itemNodes path index items, ∃ i, index ≤ i ∧ path ++ [.item i] <+: n.path
  | [], _, hn => by cases hn
  | v :: rest, n, hn => by
    rw [itemNodes] at hn
    obtain hn | hn := List.mem_append.1 hn
    · exact ⟨index, Nat.le_refl _, prefix_of_mem_nodes _ v n hn⟩
    · obtain ⟨i, hi, hprefix⟩ := prefix_of_mem_itemNodes path (index + 1) rest n hn
      exact ⟨i, Nat.le_of_succ_le hi, hprefix⟩

end

def InOrder (nodes : List Node) : Prop := nodes.Pairwise fun m n => m.path.Before n.path

mutual

theorem inOrder_nodes (path : Path) : (v : Json) → v.Canonical → InOrder (nodes path v)
  | .obj fields, h => by
    obtain ⟨hfields, hvalues⟩ := Json.canonical_obj_iff.1 h
    rw [nodes]
    apply List.pairwise_cons.2 ⟨?_, inOrder_fieldNodes path fields hfields hvalues⟩
    intro n hn
    obtain ⟨key, _, p, hp⟩ := prefix_of_mem_fieldNodes path fields n hn
    rw [← hp, List.append_assoc]
    exact Path.before_extended path _ p
  | .arr items, h => by
    rw [nodes]
    apply List.pairwise_cons.2 ⟨?_, inOrder_itemNodes path 0 items (Json.canonical_arr_iff.1 h)⟩
    intro n hn
    obtain ⟨i, _, p, hp⟩ := prefix_of_mem_itemNodes path 0 items n hn
    rw [← hp, List.append_assoc]
    exact Path.before_extended path _ p
  | .null, _ => List.pairwise_singleton ..
  | .bool _, _ => List.pairwise_singleton ..
  | .int _, _ => List.pairwise_singleton ..
  | .float _, _ => List.pairwise_singleton ..
  | .str _, _ => List.pairwise_singleton ..

theorem inOrder_fieldNodes (path : Path) : (fields : Fields) → fields.Ascending →
    (∀ field ∈ fields, field.2.Canonical) → InOrder (fieldNodes path fields)
  | [], _, _ => List.Pairwise.nil
  | (key, v) :: rest, h, hvalues => by
    obtain ⟨hkey, hrest⟩ := List.pairwise_cons.1 h
    obtain ⟨hv, hvalues⟩ := List.forall_mem_cons.1 hvalues
    rw [fieldNodes]
    apply List.pairwise_append.2
    refine ⟨inOrder_nodes _ v hv, inOrder_fieldNodes path rest hrest hvalues, ?_⟩
    intro m hm n hn
    obtain ⟨k, hk, hprefix⟩ := prefix_of_mem_fieldNodes path rest n hn
    obtain ⟨field, hfield, rfl⟩ := List.mem_map.1 hk
    have hlt : (Step.field key).Before (.field field.1) := hkey field hfield
    exact Path.before_of_prefix hlt (prefix_of_mem_nodes _ v m hm) hprefix

theorem inOrder_itemNodes (path : Path) (index : Nat) : (items : List Json) →
    (∀ v ∈ items, v.Canonical) → InOrder (itemNodes path index items)
  | [], _ => List.Pairwise.nil
  | v :: rest, h => by
    obtain ⟨hv, hrest⟩ := List.forall_mem_cons.1 h
    rw [itemNodes]
    apply List.pairwise_append.2
    refine ⟨inOrder_nodes _ v hv, inOrder_itemNodes path (index + 1) rest hrest, ?_⟩
    intro m hm n hn
    obtain ⟨i, hi, hprefix⟩ := prefix_of_mem_itemNodes path (index + 1) rest n hn
    have hlt : (Step.item index).Before (.item i) := hi
    exact Path.before_of_prefix hlt (prefix_of_mem_nodes _ v m hm) hprefix

end

end Order

def Step.text : Step → String
  | .field key => "." ++ key
  | .item index => "[" ++ Nat.repr index ++ "]"

def Path.rest (path : Path) : String := path.foldr (fun step text => step.text ++ text) ""

/-- A position as it is written: no point stands before the first key, and no empty key stands
first. -/
def Path.dotted : Path → String
  | .field key :: path => if key = "" then Path.dotted path else key ++ Path.rest path
  | path => Path.rest path

theorem Step.extend_of_ne {text : String} (h : text ≠ "") (step : Step) :
    step.extend text = text ++ step.text := by
  cases step with
  | field key => rw [extend, if_neg h, Step.text, String.append_assoc]
  | item index => rw [extend, Step.text, ← String.append_assoc, ← String.append_assoc]

theorem foldl_extend {text : String} (h : text ≠ "") (path : Path) :
    path.foldl Step.extend text = text ++ path.rest := by
  induction path generalizing text with
  | nil => exact String.append_empty.symm
  | cons step path ih =>
    have hne : text ++ step.text ≠ "" := fun he => h (String.append_eq_empty_iff.1 he).1
    rw [List.foldl_cons, Step.extend_of_ne h, ih hne, String.append_assoc]
    rfl

theorem pathText_eq_dotted (path : Path) : pathText path = path.dotted := by
  induction path with
  | nil => rfl
  | cons step path ih =>
    rw [pathText, List.foldl_cons]
    cases step with
    | field key =>
      rw [Path.dotted, Step.extend, if_pos rfl]
      split
      · rename_i hkey
        rw [hkey]
        exact ih
      · rename_i hkey
        exact foldl_extend hkey path
    | item index =>
      have hne : Step.extend "" (.item index) ≠ "" := by
        simp [Step.extend]
      rw [foldl_extend hne]
      simp [Path.dotted, Path.rest, Step.extend, Step.text]

end ActivityBoard.Display
