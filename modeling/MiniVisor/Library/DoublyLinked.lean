import Mathlib.Data.List.Basic
import Mathlib.Data.List.Nodup
import Mathlib.Tactic

/-!
# Intrusive doubly linked lists

A list of nodes is represented by a next and a previous link at every node.
`Linked nx pv p l q` says that the nodes of `l` are linked in order, that the
first one points back to `p` and the last one on to `q`. A whole list has `none`
at both ends; segments are needed to cut a list at a node.
-/
namespace DoublyLinked

variable {α : Type*} {nx pv nx' pv' : α → Option α} {p q p' q' : Option α} {l l₁ l₂ : List α}
  {a e : α}

def Linked (nx pv : α → Option α) : Option α → List α → Option α → Prop
  | _, [], _ => True
  | p, a :: l, q => pv a = p ∧ nx a = l.head?.or q ∧ Linked nx pv (some a) l q

theorem linked_append :
    Linked nx pv p (l₁ ++ l₂) q ↔
      Linked nx pv p l₁ (l₂.head?.or q) ∧ Linked nx pv (l₁.getLast?.or p) l₂ q := by
  induction l₁ generalizing p with
  | nil => simp [Linked]
  | cons a l₁ ih =>
    have hlast : (a :: l₁).getLast?.or p = l₁.getLast?.or (some a) := by
      rw [List.getLast?_cons]
      cases l₁.getLast? <;> simp
    have hhead : (l₁ ++ l₂).head?.or q = l₁.head?.or (l₂.head?.or q) := by
      rw [List.head?_append, Option.or_assoc]
    rw [List.cons_append, Linked, Linked, ih, hlast, hhead]
    tauto

theorem Linked.congr (h : Linked nx pv p l q) (hnx : ∀ a ∈ l, nx' a = nx a)
    (hpv : ∀ a ∈ l, pv' a = pv a) : Linked nx' pv' p l q := by
  induction l generalizing p with
  | nil => trivial
  | cons a l ih =>
    obtain ⟨hp, hn, hl⟩ := h
    exact ⟨(hpv a (by simp)).trans hp, (hnx a (by simp)).trans hn,
      ih hl (fun b hb => hnx b (by simp [hb])) fun b hb => hpv b (by simp [hb])⟩

/-- The links of one node of a whole list. -/
theorem Linked.at_node (h : Linked nx pv none (l₁ ++ a :: l₂) none) :
    pv a = l₁.getLast? ∧ nx a = l₂.head? := by
  obtain ⟨-, hp, hn, -⟩ := linked_append.1 h
  rw [Option.or_none] at hp hn
  exact ⟨hp, hn⟩

/-- The nodes that the links of one direction visit from a node on. -/
def walk (nx : α → Option α) : ℕ → Option α → List α
  | 0, _ => []
  | _ + 1, none => []
  | fuel + 1, some a => a :: walk nx fuel (nx a)

theorem length_walk_le (nx : α → Option α) (fuel : ℕ) (a : Option α) :
    (walk nx fuel a).length ≤ fuel := by
  induction fuel generalizing a with
  | zero => exact le_rfl
  | succ fuel ih =>
    cases a with
    | none => exact Nat.zero_le _
    | some a => exact Nat.succ_le_succ (ih (nx a))

theorem Linked.walk_eq {fuel : ℕ} (h : Linked nx pv p l none) (hfuel : l.length ≤ fuel) :
    walk nx fuel l.head? = l := by
  induction l generalizing p fuel with
  | nil => cases fuel <;> rfl
  | cons a l ih =>
    obtain ⟨-, hnext, hrest⟩ := h
    cases fuel with
    | zero => simp at hfuel
    | succ fuel =>
      rw [List.head?_cons, walk, hnext, Option.or_none,
        ih hrest (by simpa using hfuel)]

variable [DecidableEq α]

/-- A segment whose first node gets another predecessor. -/
theorem Linked.rehead (h : Linked nx pv p l q) (hnodup : l.Nodup) (hnx : ∀ a ∈ l, nx' a = nx a)
    (hpv : ∀ a ∈ l, pv' a = if l.head? = some a then p' else pv a) : Linked nx' pv' p' l q := by
  cases l with
  | nil => trivial
  | cons a l =>
    obtain ⟨-, hn, hl⟩ := h
    refine ⟨by simpa using hpv a (by simp), (hnx a (by simp)).trans hn,
      hl.congr (fun b hb => hnx b (by simp [hb])) fun b hb => ?_⟩
    have hne : a ≠ b := fun hab => (List.nodup_cons.1 hnodup).1 (hab ▸ hb)
    simpa [hne] using hpv b (by simp [hb])

/-- A segment whose last node gets another successor. -/
theorem Linked.retail (h : Linked nx pv p l q) (hnodup : l.Nodup) (hpv : ∀ a ∈ l, pv' a = pv a)
    (hnx : ∀ a ∈ l, nx' a = if l.getLast? = some a then q' else nx a) :
    Linked nx' pv' p l q' := by
  induction l generalizing p with
  | nil => trivial
  | cons a l ih =>
    obtain ⟨hp, hn, hl⟩ := h
    obtain ⟨ha, hnodup'⟩ := List.nodup_cons.1 hnodup
    refine ⟨(hpv a (by simp)).trans hp, ?_, ih hl hnodup' (fun b hb => hpv b (by simp [hb])) ?_⟩
    · rw [hnx a (by simp)]
      cases l with
      | nil => simp
      | cons b l =>
        have hne : (a :: b :: l).getLast? ≠ some a := by
          intro hlast
          rw [List.getLast?_cons_cons] at hlast
          exact ha (List.mem_of_getLast? hlast)
        rw [if_neg hne, hn]
        simp
    · intro b hb
      have hlast : (a :: l).getLast? = l.getLast? := by
        cases l with
        | nil => exact absurd hb List.not_mem_nil
        | cons c l => exact List.getLast?_cons_cons
      rw [← hlast]
      exact hnx b (by simp [hb])

/-- Taking a node out of a whole list: its neighbours are linked to each other. -/
theorem Linked.unlink (h : Linked nx pv none (l₁ ++ e :: l₂) none) (hnodup : (l₁ ++ e :: l₂).Nodup)
    (hnx : ∀ a, a ≠ e → nx' a = if pv e = some a then nx e else nx a)
    (hpv : ∀ a, a ≠ e → pv' a = if nx e = some a then pv e else pv a) :
    Linked nx' pv' none (l₁ ++ l₂) none := by
  obtain ⟨hpe, hne⟩ := h.at_node
  obtain ⟨h₁, -, -, h₂⟩ := linked_append.1 h
  obtain ⟨hnd₁, hnd₂, hdisj⟩ := List.nodup_append.1 hnodup
  obtain ⟨he₂, hnd₂⟩ := List.nodup_cons.1 hnd₂
  have hcross : ∀ {a}, a ∈ l₁ → a ∉ l₂ := fun ha₁ ha₂ => hdisj _ ha₁ _ (by simp [ha₂]) rfl
  have he₁ : ∀ {a}, a ∈ l₁ → a ≠ e := fun ha => hdisj _ ha _ (by simp)
  have he₂' : ∀ {a}, a ∈ l₂ → a ≠ e := fun ha hae => he₂ (hae ▸ ha)
  rw [linked_append, Option.or_none, Option.or_none]
  constructor
  · refine h₁.retail hnd₁ (fun a ha => ?_) fun a ha => ?_
    · rw [hpv a (he₁ ha), if_neg]
      rw [hne]
      exact fun hhead => hcross ha (List.mem_of_head? hhead)
    · rw [hnx a (he₁ ha), hpe, hne]
  · refine h₂.rehead hnd₂ (fun a ha => ?_) fun a ha => ?_
    · rw [hnx a (he₂' ha), if_neg]
      rw [hpe]
      exact fun hlast => hcross (List.mem_of_getLast? hlast) ha
    · rw [hpv a (he₂' ha), hpe, hne]

/-- Putting a new node between two parts of a whole list. -/
theorem Linked.link (h : Linked nx pv none (l₁ ++ l₂) none) (hnodup : (l₁ ++ l₂).Nodup)
    (he : e ∉ l₁ ++ l₂)
    (hnx : ∀ a, a ≠ e → nx' a = if l₁.getLast? = some a then some e else nx a)
    (hpv : ∀ a, a ≠ e → pv' a = if l₂.head? = some a then some e else pv a)
    (hne : nx' e = l₂.head?) (hpe : pv' e = l₁.getLast?) :
    Linked nx' pv' none (l₁ ++ e :: l₂) none := by
  obtain ⟨h₁, h₂⟩ := linked_append.1 h
  obtain ⟨hnd₁, hnd₂, hdisj⟩ := List.nodup_append.1 hnodup
  have hcross : ∀ {a}, a ∈ l₁ → a ∉ l₂ := fun ha₁ ha₂ => hdisj _ ha₁ _ ha₂ rfl
  have he₁ : ∀ {a}, a ∈ l₁ → a ≠ e := fun ha hae => he (by simp [← hae, ha])
  have he₂ : ∀ {a}, a ∈ l₂ → a ≠ e := fun ha hae => he (by simp [← hae, ha])
  rw [linked_append, Linked, Option.or_none, Option.or_none]
  refine ⟨h₁.retail hnd₁ (fun a ha => ?_) fun a ha => hnx a (he₁ ha), hpe, by rwa [Option.or_none],
    h₂.rehead hnd₂ (fun a ha => ?_) fun a ha => hpv a (he₂ ha)⟩
  · rw [hpv a (he₁ ha), if_neg fun hhead => hcross ha (List.mem_of_head? hhead)]
  · rw [hnx a (he₂ ha), if_neg fun hlast => hcross (List.mem_of_getLast? hlast) ha]

end DoublyLinked
