import ActivityBoard.Config
import ActivityBoard.Proofs.Named
import Mathlib.Data.Rat.Floor

namespace ActivityBoard

namespace Limits

inductive Key where
  | processes
  | cpu
  | lvm
  | disk
  | interface
  | numa
  | llc
deriving DecidableEq

def Key.name : Key → String
  | .processes => "processes"
  | .cpu => "cpu"
  | .lvm => "lvm"
  | .disk => "disk"
  | .interface => "interface"
  | .numa => "numa"
  | .llc => "llc"

theorem Key.name_injective : Function.Injective name := by
  intro j k h
  cases j <;> cases k <;> first | rfl | exact absurd h (by decide)

def get (l : Limits) : Key → Nat
  | .processes => l.processes
  | .cpu => l.cpu
  | .lvm => l.lvm
  | .disk => l.disk
  | .interface => l.interface
  | .numa => l.numa
  | .llc => l.llc

def set (l : Limits) (key : Key) (n : Nat) : Limits :=
  match key with
  | .processes => { l with processes := n }
  | .cpu => { l with cpu := n }
  | .lvm => { l with lvm := n }
  | .disk => { l with disk := n }
  | .interface => { l with interface := n }
  | .numa => { l with numa := n }
  | .llc => { l with llc := n }

theorem get_set (l : Limits) (key j : Key) (n : Nat) :
    (l.set key n).get j = if j = key then n else l.get j := by
  cases key <;> cases j <;> rfl

end Limits

namespace Toml

/-- The one table differs from the other by `value` under `key` alone. -/
structure Puts (key : String) (value : Toml) (before after : Entries) : Prop where
  given : after.get? key = some value
  others : (after.filter fun entry => entry.1 ≠ key) = before.filter fun entry => entry.1 ≠ key

namespace Puts

variable {key j : String} {value : Toml} {before after : Entries}

theorem get?_of_ne (h : Puts key value before after) (hj : j ≠ key) :
    after.get? j = before.get? j := by
  have hafter := Named.lookup_filter_ne after key j
  rw [h.others, Named.lookup_filter_ne, if_neg hj, if_neg hj] at hafter
  exact hafter.symm

theorem all_eq (h : Puts key value before after) {p : String × Toml → Bool}
    (hp : ∀ w, p (key, w) = true) : after.all p = before.all p := by
  have hdrop (entries : Entries) :
      entries.all p = (entries.filter fun entry => entry.1 ≠ key).all p := by
    rw [List.all_filter]
    congr 1
    funext entry
    by_cases he : entry.1 = key
    · subst he
      simp [hp entry.2]
    · simp [he]
  rw [hdrop, h.others, ← hdrop]

end Puts

/-- One number that 64 bits hold, a text or a truth value. -/
def isScalar : Toml → Bool
  | .integer n => decide (-9223372036854775808 ≤ n ∧ n ≤ (Config.greatest : Int))
  | .float _ | .text _ | .boolean _ => true
  | _ => false

/-- The number that a value is or, blanks around it apart, spells; none where that is not finite. -/
def amount? : Toml → Option ℚ
  | .integer n => some n
  | .float x => if x.isFinite then some x.value else none
  | .text s => (Binary64.ofText? (Text.trim s.toList)).bind fun x =>
    if x.isFinite then some x.value else none
  | _ => none

end Toml

namespace Config

open Limits (Key)

/-- The row limit that a value means. -/
def clamped (value : Toml) : Nat :=
  match value.amount? with
  | some q => if q < 0 then 0 else min q.floor.toNat greatest
  | none => 0

section Limit

theorem limitOfFloat_eq (x : Binary64) : limitOfFloat x =
    match (if x.isFinite then some x.value else none) with
    | some q => if q < 0 then 0 else min q.floor.toNat greatest
    | none => 0 := by
  cases x with
  | nan => rfl
  | infinity => rfl
  | finite s m e h =>
    change (max 0 (min (greatest : ℤ) (Binary64.integerPart _))).toNat = ite _ _ _
    rw [Binary64.integerPart]
    split
    · rename_i hq
      have hneg : 0 ≤ (-(Binary64.finite s m e h).value).floor :=
        Rat.le_floor_iff.2 (by simpa using hq.le)
      omega
    · omega

theorem limit?_eq (v : Toml) : limit? v = if v.isScalar then some (clamped v) else none := by
  cases v with
  | integer n =>
    simp only [limit?, Toml.isScalar, clamped, Toml.amount?, decide_eq_true_eq]
    by_cases hn : -9223372036854775808 ≤ n ∧ n ≤ (greatest : ℤ)
    · rw [if_neg (by omega), if_pos hn]
      congr 1
      rw [Rat.floor_intCast]
      split
      · rename_i hneg
        have : n < 0 := by exact_mod_cast hneg
        omega
      · omega
    · rw [if_pos (by omega), if_neg hn]
  | float x => exact congrArg some (limitOfFloat_eq x)
  | text s =>
    simp only [limit?, Toml.isScalar, clamped, Toml.amount?, if_true]
    cases Binary64.ofText? (Text.trim s.toList) with
    | none => rfl
    | some x => exact congrArg some (limitOfFloat_eq x)
  | boolean => rfl
  | unreadable => rfl
  | moment => rfl
  | array => rfl
  | table => rfl
  | tables => rfl

end Limit

section Puts

variable {α : Type} {read : Toml → Option α} {default : α} {key : Key} {name j : String} {v : Toml}
  {keys : List String} {before after doc doc' : Toml.Entries} {l : Limits} {c : Config}

theorem field?_of_puts (h : Toml.Puts name v before after) :
    field? read after name default = read v := by
  rw [field?, h.given]

theorem field?_of_puts_ne (h : Toml.Puts name v before after) (hj : j ≠ name) :
    field? read after j default = field? read before j default := by
  rw [field?, field?, h.get?_of_ne hj]

theorem limitsOf?_eq_some_iff : limitsOf? before = some l ↔
    ∀ k : Key, field? limit? before k.name (({} : Limits).get k) = some (l.get k) := by
  constructor
  · intro h k
    simp only [limitsOf?, Option.bind_eq_bind, Option.bind_eq_some_iff, Option.pure_def,
      Option.some.injEq] at h
    obtain ⟨_, h₁, _, h₂, _, h₃, _, h₄, _, h₅, _, h₆, _, h₇, rfl⟩ := h
    cases k <;> assumption
  · intro h
    have h₁ := h .processes
    have h₂ := h .cpu
    have h₃ := h .lvm
    have h₄ := h .disk
    have h₅ := h .interface
    have h₆ := h .numa
    have h₇ := h .llc
    simp only [Key.name, Limits.get] at h₁ h₂ h₃ h₄ h₅ h₆ h₇
    simp only [limitsOf?, h₁, h₂, h₃, h₄, h₅, h₆, h₇]
    rfl

theorem limitsOf?_of_puts (h : limitsOf? before = some l)
    (hp : Toml.Puts key.name v before after) :
    limitsOf? after = (limit? v).map (l.set key) := by
  have hother (k : Key) (hk : k ≠ key) :
      field? limit? after k.name (({} : Limits).get k) = some (l.get k) :=
    (field?_of_puts_ne hp fun he => hk (Key.name_injective he)).trans (limitsOf?_eq_some_iff.1 h k)
  cases hv : limit? v with
  | none =>
    cases hl : limitsOf? after with
    | none => rfl
    | some l' =>
      have hk := limitsOf?_eq_some_iff.1 hl key
      rw [field?_of_puts hp, hv] at hk
      cases hk
  | some n =>
    refine limitsOf?_eq_some_iff.2 fun k => ?_
    rw [Limits.get_set]
    by_cases hk : k = key
    · subst k
      rw [if_pos rfl, field?_of_puts hp, hv]
    · rw [if_neg hk]
      exact hother k hk

theorem section?_of_puts {o o' : Toml.Origin} (hp : Toml.Puts name v before after)
    (hn : name ∈ keys) {entries : Toml.Entries}
    (h : section? keys (.table o before) = some entries) :
    entries = before ∧ section? keys (.table o' after) = some after := by
  rw [section?] at h ⊢
  rw [hp.all_eq fun w => by simp [hn]]
  split at h
  · rename_i ha
    rw [if_pos ha]
    exact ⟨(Option.some.inj h).symm, rfl⟩
  · cases h

inductive SectionIs (doc : Toml.Entries) (name : String) : Toml.Entries → Prop where
  | absent (h : doc.get? name = none) : SectionIs doc name []
  | table {o entries} (h : doc.get? name = some (.table o entries)) : SectionIs doc name entries

/-- The one document differs from the other by `v` as a row limit alone. -/
def PutsLimit (key : Key) (v : Toml) (doc doc' : Toml.Entries) : Prop :=
  ∃ o inner inner', SectionIs doc "limits" inner ∧ Toml.Puts key.name v inner inner' ∧
    Toml.Puts "limits" (.table o inner') doc doc'

def limitKeys : List String := ["processes", "cpu", "lvm", "disk", "interface", "numa", "llc"]

theorem Key.name_mem (key : Key) : key.name ∈ limitKeys := by
  cases key <;> decide

theorem sectionOf?_of_puts {o : Toml.Origin} {inner inner' entries : Toml.Entries}
    (hs : SectionIs doc name inner) (hp : Toml.Puts j v inner inner') (hj : j ∈ keys)
    (hd : Toml.Puts name (.table o inner') doc doc')
    (h : sectionOf? doc name keys = some entries) :
    entries = inner ∧ sectionOf? doc' name keys = some inner' := by
  rw [sectionOf?, hd.given]
  cases hs with
  | absent ha =>
    rw [sectionOf?, ha] at h
    cases h
    exact section?_of_puts (o := .header) hp hj rfl
  | table ht =>
    rw [sectionOf?, ht] at h
    exact section?_of_puts hp hj h

theorem ofEntries?_of_puts (h : ofEntries? doc = some c) (hp : PutsLimit key v doc doc') :
    ofEntries? doc' = (limit? v).map fun n => { c with limits := c.limits.set key n } := by
  obtain ⟨o, inner, inner', hs, hin, hd⟩ := hp
  simp only [ofEntries?, Option.bind_eq_bind, Option.bind_eq_some_iff, Option.pure_def,
    Option.some.injEq] at h
  obtain ⟨root, hroot, general, hgeneral, limits, hlimits, refreshPeriod, h₁, sort, h₂,
    onlyProcesses, h₃, missing, h₄, l, hl, rfl⟩ := h
  have hroot' : section? ["general", "limits"] (.table .header doc') = some doc' :=
    (section?_of_puts hd (by decide) hroot).2
  obtain ⟨rfl, hlimits'⟩ := sectionOf?_of_puts hs hin (Key.name_mem key) hd hlimits
  have hgeneral' : sectionOf? doc' "general"
      ["refresh_rate_ms", "default_sort", "only_proc", "missing_entry"] = some general := by
    rw [sectionOf?, hd.get?_of_ne (by decide)]
    exact hgeneral
  rw [limitKeys] at hlimits'
  simp only [ofEntries?, Option.bind_eq_bind, Option.pure_def, hroot', hgeneral', hlimits',
    Option.bind_some, h₁, h₂, h₃, h₄, limitsOf?_of_puts hl hin]
  cases limit? v <;> rfl

end Puts

/-- A scalar as a row limit is cut to a row count and every other setting stays; anything else
leaves the defaults of all settings. -/
theorem ofText_of_putsLimit {before after : String} {doc doc' : Toml.Entries} {c : Config}
    {key : Key} {v : Toml} (hbefore : Toml.ofText? before = some doc)
    (hafter : Toml.ofText? after = some doc') (hc : ofEntries? doc = some c)
    (hp : PutsLimit key v doc doc') :
    ofText after =
      if v.isScalar then
        { ofText before with limits := (ofText before).limits.set key (clamped v) }
      else {} := by
  have hread : ofText before = c := by
    rw [ofText, hbefore, Option.bind_some, hc, Option.getD_some]
  rw [hread, ofText, hafter, Option.bind_some, ofEntries?_of_puts hc hp, limit?_eq]
  split <;> rfl

def limited (line : String) : String :=
  "[general]\nonly_proc = false\n\n[limits]\ncpu = 3\n" ++ line

def limitedDocument (limits : Toml.Entries) : Toml.Entries :=
  [("general", .table .header [("only_proc", .boolean false)]), ("limits", .table .header limits)]

theorem putsLimit_limited (v : Toml) : PutsLimit .processes v
    (limitedDocument [("cpu", .integer 3)])
    (limitedDocument [("cpu", .integer 3), ("processes", v)]) :=
  ⟨.header, [("cpu", .integer 3)], [("cpu", .integer 3), ("processes", v)], .table rfl, ⟨rfl, rfl⟩,
    ⟨rfl, rfl⟩⟩

theorem ofText_of_putsLimit_fraction :
    Toml.ofText? (limited "") = some (limitedDocument [("cpu", .integer 3)]) ∧
      Toml.ofText? (limited "processes = \" 2.9 \"\n") =
        some (limitedDocument [("cpu", .integer 3), ("processes", .text " 2.9 ")]) ∧
      ofText (limited "processes = \" 2.9 \"\n") = { ofText (limited "") with
        limits := (ofText (limited "")).limits.set .processes 2 } := by
  have hbefore : Toml.ofText? (limited "") = some (limitedDocument [("cpu", .integer 3)]) := rfl
  have hafter : Toml.ofText? (limited "processes = \" 2.9 \"\n") =
      some (limitedDocument [("cpu", .integer 3), ("processes", .text " 2.9 ")]) := rfl
  have h := ofText_of_putsLimit hbefore hafter rfl (putsLimit_limited (.text " 2.9 "))
  have hclamped : clamped (.text " 2.9 ") = 2 := by decide +kernel
  rw [hclamped] at h
  exact ⟨hbefore, hafter, h⟩

/-- A list in place of the limit of processes leaves threads out again, against the setting. -/
theorem list_as_limit_resets :
    (∃ doc doc' c, Toml.ofText? (limited "") = some doc ∧
      Toml.ofText? (limited "processes = [1]\n") = some doc' ∧ ofEntries? doc = some c ∧
      PutsLimit .processes (.array [.integer 1]) doc doc') ∧
    (ofText (limited "")).onlyProcesses = false ∧
      (ofText (limited "processes = [1]\n")).onlyProcesses = true :=
  ⟨⟨_, _, _, rfl, rfl, rfl, putsLimit_limited _⟩, by decide +kernel⟩

end Config

end ActivityBoard
