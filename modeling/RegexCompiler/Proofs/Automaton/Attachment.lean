import RegexCompiler.Automaton.EpsilonNfa
import RegexCompiler.Proofs.Automaton.Fragment
import RegexCompiler.Proofs.Graph.Runs
import RegexCompiler.Proofs.Graph.Series
import RegexCompiler.Regex.Entry

/-!
# Attached expressions

Attaching an expression in front of a target adds a fragment to the automaton. It owns the vertices
with the numbers that were given away meanwhile, and the entry of the automaton if the marked symbol
is in the expression. The fragments of the parts own different vertices, so they can be joined.
-/

namespace RegexCompiler

open RegexCompiler.Graph

variable {κ : Type}

namespace Draft

variable {d : Draft κ}

@[simp] lemma graph_addEdge {source target : State} {label : Label} :
    (d.addEdge source target label).graph = d.graph.addEdge source target label :=
  rfl

@[simp] lemma next_addEdge {source target : State} {label : Label} :
    (d.addEdge source target label).next = d.next :=
  rfl

@[simp] lemma graph_mint : d.mint.1.graph = d.graph.addVertex (.fresh d.next) :=
  rfl

@[simp] lemma mint_snd : d.mint.2 = .fresh d.next :=
  rfl

end Draft

/-- Vertices that were there when `next` was the next number, and where something can end. -/
def Settled (next : Nat) : State → Prop
  | .start => False
  | .fresh n => n < next
  | .final => True

/-- The vertices of a fragment that was given the numbers from `low` on and below `high`. -/
def Owned (low high : Nat) (entry : State) : State → Prop
  | .start => entry = .start
  | .fresh n => low ≤ n ∧ n < high
  | .final => False

lemma Settled.ne_start {next : Nat} {v : State} (h : Settled next v) : v ≠ .start := by
  rintro rfl
  exact h

lemma Settled.mono {next later : Nat} {v : State} (h : Settled next v) (hle : next ≤ later) :
    Settled later v := by
  cases v with
  | start => exact h
  | fresh n => exact Nat.lt_of_lt_of_le h hle
  | final => trivial

lemma Settled.not_owned {low high : Nat} {entry v : State} (h : Settled low v) :
    ¬Owned low high entry v := by
  cases v with
  | start => exact absurd h id
  | fresh n => exact fun ho => Nat.not_le_of_lt h ho.1
  | final => exact id

lemma Owned.settled {low high : Nat} {entry v : State} (h : Owned low high entry v)
    (hv : v ≠ .start) : Settled high v := by
  cases v with
  | start => exact absurd rfl hv
  | fresh n => exact h.2
  | final => exact absurd h id

lemma Owned.apart {low middle high : Nat} {first second v : State}
    (hstart : ¬(first = .start ∧ second = .start)) (h : Owned low middle first v) :
    ¬Owned middle high second v := by
  cases v with
  | start => exact fun ho => hstart ⟨h, ho⟩
  | fresh n => exact fun ho => Nat.not_le_of_lt h.2 ho.1
  | final => exact id

lemma Owned.widen {low high low' high' : Nat} {first second v : State}
    (h : Owned low high first v) (hlow : low' ≤ low) (hhigh : high ≤ high')
    (hstart : first = .start → second = .start) : Owned low' high' second v := by
  cases v with
  | start => exact hstart h
  | fresh n => exact ⟨Nat.le_trans hlow h.1, Nat.lt_of_lt_of_le h.2 hhigh⟩
  | final => exact h

/-- What attaching an expression to a draft has added to it. -/
structure Attached (d d' : Draft κ) (added : Arrows State) (entry target : State)
    (L : List Char → Prop) : Prop where
  coherent : d'.graph.Coherent
  finals : d'.graph.finals = d.graph.finals
  next_le : d.next ≤ d'.next
  arrow_iff : ∀ u label v, d'.graph.Arrow u label v ↔ d.graph.Arrow u label v ∨ added u label v
  fragment : Fragment (Owned d.next d'.next entry) added entry target L
  no_return : ∀ u label, ¬added u label .start

namespace Attached

variable {d d₁ d₂ : Draft κ} {added added₁ added₂ : Arrows State}
  {entry entry₁ entry₂ target : State} {L M : List Char → Prop}

lemma entry_settled (h : Attached d d₁ added entry target L) (hentry : entry ≠ .start) :
    Settled d₁.next entry :=
  h.fragment.entry_inside.settled hentry

lemma congr_language (h : Attached d d₁ added entry target L) (hLM : ∀ word, L word ↔ M word) :
    Attached d d₁ added entry target M := by
  have hlanguage : L = M := funext fun word => propext (hLM word)
  rwa [← hlanguage]

lemma atStart (hd : d.graph.Coherent) (ht : Settled d.next target) (label : Label) :
    Attached d (d.addEdge .start target label) (Arrows.one .start label target) .start target
      (· = label.word) where
  coherent := hd.addEdge _ _ _
  finals := finals_addEdge
  next_le := Nat.le_refl _
  arrow_iff u mark v := arrow_addEdge
  fragment := by
    refine (Fragment.one label ht.ne_start.symm).widen ?_ ht.not_owned
    rintro _ rfl
    exact rfl
  no_return := by
    rintro u mark ⟨-, -, rfl⟩
    exact ht

lemma atFresh (hd : d.graph.Coherent) (ht : Settled d.next target) (label : Label) :
    Attached d (d.mint.1.addEdge d.mint.2 target label)
      (Arrows.one (.fresh d.next) label target) (.fresh d.next) target (· = label.word) where
  coherent := (hd.addVertex _).addEdge _ _ _
  finals := by simp
  next_le := Nat.le_succ _
  arrow_iff u mark v := by
    rw [Draft.graph_addEdge, Draft.graph_mint, arrow_addEdge, arrow_addVertex]
    exact Iff.rfl
  fragment := by
    have hne : State.fresh d.next ≠ target := by
      rintro rfl
      exact Nat.lt_irrefl _ ht
    refine (Fragment.one label hne).widen ?_ ht.not_owned
    rintro _ rfl
    exact ⟨Nat.le_refl _, Nat.lt_succ_self _⟩
  no_return := by
    rintro u mark ⟨-, -, rfl⟩
    exact ht

theorem chain (h₁ : Attached d d₁ added₁ entry₁ target M)
    (h₂ : Attached d₁ d₂ added₂ entry₂ entry₁ L) (hentry : entry₁ ≠ .start)
    (ht : Settled d.next target) :
    Attached d d₂ (Arrows.both added₂ added₁) entry₂ target (Concatenated L M) where
  coherent := h₂.coherent
  finals := h₂.finals.trans h₁.finals
  next_le := Nat.le_trans h₁.next_le h₂.next_le
  arrow_iff u label v := by
    rw [h₂.arrow_iff, h₁.arrow_iff, or_assoc, or_comm (a := added₁ u label v)]
    exact Iff.rfl
  fragment := by
    have hapart : ∀ v, Owned d₁.next d₂.next entry₂ v → ¬Owned d.next d₁.next entry₁ v :=
      fun v hv hv' => hv'.apart (fun h => hentry h.1) hv
    refine (h₂.fragment.chain h₁.fragment hapart (ht.mono h₁.next_le).not_owned).widen ?_
      ht.not_owned
    rintro v (hv | hv)
    · exact hv.widen h₁.next_le (Nat.le_refl _) id
    · exact hv.widen (Nat.le_refl _) h₂.next_le fun h => absurd h hentry
  no_return := by
    rintro u label (ha | ha)
    · exact h₂.no_return u label ha
    · exact h₁.no_return u label ha

/-! ### Alternatives -/

lemma joined {d₃ : Draft κ} {extra : Arrows State} {N : List Char → Prop}
    (h₁ : Attached d d₁ added₁ entry₁ target L) (h₂ : Attached d₁ d₂ added₂ entry₂ target M)
    (hcoherent : d₃.graph.Coherent) (hfinals : d₃.graph.finals = d₂.graph.finals)
    (hnext : d₂.next ≤ d₃.next) (harrow : ∀ u label v,
      d₃.graph.Arrow u label v ↔ d₂.graph.Arrow u label v ∨ extra u label v)
    (hadded : ∀ u label v, added u label v ↔
      (added₁ u label v ∨ added₂ u label v) ∨ extra u label v)
    (hreturn : ∀ u label, ¬extra u label .start)
    (hfragment : Fragment (Owned d.next d₃.next entry) added entry target N) :
    Attached d d₃ added entry target N where
  coherent := hcoherent
  finals := hfinals.trans (h₂.finals.trans h₁.finals)
  next_le := Nat.le_trans (Nat.le_trans h₁.next_le h₂.next_le) hnext
  arrow_iff u label v := by
    rw [harrow, h₂.arrow_iff, h₁.arrow_iff, hadded, or_assoc (a := d.graph.Arrow u label v),
      or_assoc]
  fragment := hfragment
  no_return := by
    intro u label ha
    rcases (hadded _ _ _).mp ha with (ha | ha) | ha
    · exact h₁.no_return u label ha
    · exact h₂.no_return u label ha
    · exact hreturn u label ha

lemma enterFirst (h₁ : Attached d d₁ added₁ entry₁ target L)
    (h₂ : Attached d₁ d₂ added₂ entry₂ target M) (hentry : entry₂ ≠ .start)
    (ht : Settled d.next target) (hback : ∀ u label, ¬added₁ u label entry₁) :
    Attached d (d₂.addEdge entry₁ entry₂ .epsilon)
      (Arrows.choice added₁ added₂ entry₁ entry₂) entry₁ target fun word => L word ∨ M word := by
  have hapart : ∀ v, Owned d.next d₁.next entry₁ v → ¬Owned d₁.next d₂.next entry₂ v :=
    fun v hv => hv.apart fun h => hentry h.2
  have hfragment := h₁.fragment.choice h₂.fragment hapart hback
  refine joined h₁ h₂ (h₂.coherent.addEdge _ _ _) finals_addEdge (Nat.le_refl _)
    (fun _ _ _ => arrow_addEdge) (fun _ _ _ => Iff.rfl) ?_ (hfragment.widen ?_ ht.not_owned)
  · rintro u label ⟨-, -, rfl⟩
    exact hentry rfl
  · rintro v (hv | hv)
    · exact hv.widen (Nat.le_refl _) h₂.next_le id
    · exact hv.widen h₁.next_le (Nat.le_refl _) fun h => absurd h hentry

lemma enterSecond (h₁ : Attached d d₁ added₁ entry₁ target L)
    (h₂ : Attached d₁ d₂ added₂ entry₂ target M) (hentry : entry₁ ≠ .start)
    (ht : Settled d.next target) (hback : ∀ u label, ¬added₂ u label entry₂) :
    Attached d (d₂.addEdge entry₂ entry₁ .epsilon)
      (Arrows.choice added₂ added₁ entry₂ entry₁) entry₂ target fun word => M word ∨ L word := by
  have hapart : ∀ v, Owned d₁.next d₂.next entry₂ v → ¬Owned d.next d₁.next entry₁ v :=
    fun v hv hv' => hv'.apart (fun h => hentry h.1) hv
  have hfragment := h₂.fragment.choice h₁.fragment hapart hback
  refine joined h₁ h₂ (h₂.coherent.addEdge _ _ _) finals_addEdge (Nat.le_refl _)
    (fun _ _ _ => arrow_addEdge) (fun _ _ _ => or_congr_left Or.comm) ?_
    (hfragment.widen ?_ ht.not_owned)
  · rintro u label ⟨-, -, rfl⟩
    exact hentry rfl
  · rintro v (hv | hv)
    · exact hv.widen h₁.next_le (Nat.le_refl _) id
    · exact hv.widen (Nat.le_refl _) h₂.next_le fun h => absurd h hentry

lemma enterHub (h₁ : Attached d d₁ added₁ entry₁ target L)
    (h₂ : Attached d₁ d₂ added₂ entry₂ target M) (hentry₁ : entry₁ ≠ .start)
    (hentry₂ : entry₂ ≠ .start) (ht : Settled d.next target) :
    Attached d ((d₂.mint.1.addEdge d₂.mint.2 entry₁ .epsilon).addEdge d₂.mint.2 entry₂ .epsilon)
      (Arrows.choice (Arrows.both (Arrows.one (.fresh d₂.next) .epsilon entry₁) added₁) added₂
        (.fresh d₂.next) entry₂) (.fresh d₂.next) target fun word => L word ∨ M word := by
  have hle := Nat.le_trans h₁.next_le h₂.next_le
  have hhub₁ : ¬Owned d.next d₁.next entry₁ (.fresh d₂.next) :=
    fun h => Nat.not_le_of_lt h.2 h₂.next_le
  have hhub₂ : ¬Owned d₁.next d₂.next entry₂ (.fresh d₂.next) := fun h => Nat.lt_irrefl _ h.2
  have hexit : State.fresh d₂.next ≠ target := by
    rintro rfl
    exact Nat.not_le_of_lt ht hle
  have henter := h₁.fragment.enter hhub₁ hexit
  have hapart : ∀ v, v = .fresh d₂.next ∨ Owned d.next d₁.next entry₁ v →
      ¬Owned d₁.next d₂.next entry₂ v := by
    rintro v (rfl | hv)
    · exact hhub₂
    · exact hv.apart fun h => hentry₂ h.2
  have hback : ∀ u label, ¬Arrows.both (Arrows.one (.fresh d₂.next) .epsilon entry₁) added₁ u label
      (.fresh d₂.next) := by
    rintro u label (⟨-, -, h⟩ | ha)
    · exact hhub₁ (h ▸ h₁.fragment.entry_inside)
    · rcases h₁.fragment.target_inside ha with h | h
      · exact hhub₁ h
      · exact hexit h
  have hfragment := henter.choice h₂.fragment hapart hback
  have harrow : ∀ u label v, ((d₂.mint.1.addEdge d₂.mint.2 entry₁ .epsilon).addEdge d₂.mint.2
      entry₂ .epsilon).graph.Arrow u label v ↔ d₂.graph.Arrow u label v ∨
        Arrows.both (Arrows.one (.fresh d₂.next) .epsilon entry₁)
          (Arrows.one (.fresh d₂.next) .epsilon entry₂) u label v := by
    intro u label v
    rw [Draft.graph_addEdge, Draft.graph_addEdge, Draft.graph_mint, arrow_addEdge, arrow_addEdge,
      arrow_addVertex, or_assoc]
    exact Iff.rfl
  refine joined h₁ h₂ ?_ ?_ ?_ harrow ?_ ?_ (hfragment.widen ?_ ht.not_owned)
  · rw [Draft.graph_addEdge, Draft.graph_addEdge, Draft.graph_mint]
    exact ((h₂.coherent.addVertex _).addEdge _ _ _).addEdge _ _ _
  · simp
  · exact Nat.le_succ _
  · intro u label v
    unfold Arrows.choice Arrows.both
    tauto
  · rintro u label (⟨-, -, h⟩ | ⟨-, -, h⟩)
    · exact hentry₁ h.symm
    · exact hentry₂ h.symm
  · rintro v ((rfl | hv) | hv)
    · exact ⟨hle, Nat.lt_succ_self _⟩
    · exact hv.widen (Nat.le_refl _) (Nat.le_succ_of_le h₂.next_le) fun h => absurd h hentry₁
    · exact hv.widen h₁.next_le (Nat.le_succ _) fun h => absurd h hentry₂

theorem join (h₁ : Attached d d₁ added₁ entry₁ target L)
    (h₂ : Attached d₁ d₂ added₂ entry₂ target M) (hapart : ¬(entry₁ = .start ∧ entry₂ = .start))
    (ht : Settled d.next target) :
    (∃ added, Attached d (d₂.join entry₁ entry₂).1 added (d₂.join entry₁ entry₂).2 target
      fun word => L word ∨ M word) ∧
    ((d₂.join entry₁ entry₂).2 = .start ↔ entry₁ = .start ∨ entry₂ = .start) := by
  suffices hentries : (∃ added, Attached d (d₂.joinEntries entry₁ entry₂).1 added
      (d₂.joinEntries entry₁ entry₂).2 target fun word => L word ∨ M word) ∧
      ((d₂.joinEntries entry₁ entry₂).2 = .start ↔ entry₁ = .start ∨ entry₂ = .start) by
    obtain ⟨⟨added, h⟩, hstart⟩ := hentries
    exact ⟨⟨added, ⟨h.coherent, h.finals, h.next_le, h.arrow_iff, h.fragment, h.no_return⟩⟩, hstart⟩
  have hswap : ∀ word, M word ∨ L word ↔ L word ∨ M word := fun word => Or.comm
  unfold Draft.joinEntries
  split
  · rename_i hfirst
    have hsecond : entry₂ ≠ .start := fun h => hapart ⟨hfirst, h⟩
    subst hfirst
    exact ⟨⟨_, h₁.enterFirst h₂ hsecond ht h₁.no_return⟩, by simp⟩
  split
  · rename_i hfirst hsecond
    subst hsecond
    exact ⟨⟨_, (h₁.enterSecond h₂ hfirst ht h₂.no_return).congr_language hswap⟩, by simp⟩
  rename_i hfirst hsecond
  split
  · rename_i hincoming
    rw [Bool.not_eq_true', ← Bool.not_eq_true, h₂.coherent.hasIncoming_iff] at hincoming
    have hback : ∀ u label, ¬added₁ u label entry₁ := fun u label ha =>
      hincoming ⟨u, label, (h₂.arrow_iff _ _ _).mpr (Or.inl ((h₁.arrow_iff _ _ _).mpr (Or.inr ha)))⟩
    exact ⟨⟨_, h₁.enterFirst h₂ hsecond ht hback⟩, by simp [hfirst, hsecond]⟩
  split
  · rename_i hincoming
    rw [Bool.not_eq_true', ← Bool.not_eq_true, h₂.coherent.hasIncoming_iff] at hincoming
    have hback : ∀ u label, ¬added₂ u label entry₂ := fun u label ha =>
      hincoming ⟨u, label, (h₂.arrow_iff _ _ _).mpr (Or.inr ha)⟩
    exact ⟨⟨_, (h₁.enterSecond h₂ hfirst ht hback).congr_language hswap⟩,
      by simp [hfirst, hsecond]⟩
  · exact ⟨⟨_, h₁.enterHub h₂ hfirst hsecond ht⟩, by simp [hfirst, hsecond]⟩

/-! ### Repetitions -/

lemma foldl_addEdge_from (again : State) (first : List (Label × State))
    (hd : d.graph.Coherent) :
    (first.foldl (fun d (label, v) => d.addEdge again v label) d).graph.Coherent ∧
      (first.foldl (fun d (label, v) => d.addEdge again v label) d).graph.finals = d.graph.finals ∧
      (first.foldl (fun d (label, v) => d.addEdge again v label) d).next = d.next ∧
      ∀ u label v, (first.foldl (fun d (label, v) => d.addEdge again v label) d).graph.Arrow
        u label v ↔ d.graph.Arrow u label v ∨ u = again ∧ (label, v) ∈ first := by
  induction first generalizing d with
  | nil => exact ⟨hd, rfl, rfl, fun _ _ _ => by simp⟩
  | cons edge first ih =>
    obtain ⟨mark, w⟩ := edge
    have hedge : (d.addEdge again w mark).graph.Coherent := hd.addEdge _ _ _
    obtain ⟨hcoherent, hfinals, hnext, harrow⟩ := ih hedge
    refine ⟨hcoherent, hfinals.trans finals_addEdge, hnext, fun u label v => ?_⟩
    rw [List.foldl_cons, harrow, Draft.graph_addEdge, arrow_addEdge, List.mem_cons, Prod.mk.injEq]
    tauto

lemma loop (h : Attached d.mint.1 d₁ added entry d.mint.2 L) (hentry : entry ≠ .start)
    (ht : Settled d.next target) :
    Attached d ((d₁.addEdge d.mint.2 entry .epsilon).addEdge d.mint.2 target .epsilon)
      (Arrows.loop added entry (.fresh d.next) target) (.fresh d.next) target (Repeated L) where
  coherent := by
    rw [Draft.graph_addEdge, Draft.graph_addEdge]
    exact (h.coherent.addEdge _ _ _).addEdge _ _ _
  finals := by
    rw [Draft.graph_addEdge, Draft.graph_addEdge, finals_addEdge, finals_addEdge, h.finals,
      Draft.graph_mint, finals_addVertex]
  next_le := by
    rw [Draft.next_addEdge, Draft.next_addEdge]
    exact Nat.le_of_succ_le h.next_le
  arrow_iff u label v := by
    rw [Draft.graph_addEdge, Draft.graph_addEdge, arrow_addEdge, arrow_addEdge, h.arrow_iff,
      Draft.graph_mint, arrow_addVertex, or_assoc, or_assoc]
    unfold Arrows.loop Arrows.both
    rw [or_assoc]
    exact Iff.rfl
  fragment := by
    have hlater : Settled d.mint.1.next target := ht.mono (Nat.le_succ _)
    have hne : State.fresh d.next ≠ target := by
      rintro rfl
      exact Nat.lt_irrefl _ ht
    rw [Draft.next_addEdge, Draft.next_addEdge]
    refine (h.fragment.loop hlater.not_owned hne).widen ?_ ht.not_owned
    rintro v (hv | rfl)
    · exact hv.widen (Nat.le_succ _) (Nat.le_refl _) fun h => absurd h hentry
    · exact ⟨Nat.le_refl _, h.next_le⟩
  no_return := by
    rintro u label ((ha | ⟨-, -, rfl⟩) | ⟨-, -, rfl⟩)
    · exact h.no_return u label ha
    · exact hentry rfl
    · exact ht

/-- A repetition whose body begins at the entry of the automaton. The edges that are copied are
those of the body, since the entry had no edges before. -/
lemma copyingLoop (h : Attached d.mint.1 d₁ added .start d.mint.2 L) (ht : Settled d.next target)
    (hstart : ∀ label v, ¬d.graph.Arrow .start label v) :
    Attached d ((((d₁.graph.outgoing.neighbours .start).foldl
        (fun d' (label, v) => d'.addEdge d.mint.2 v label) d₁).addEdge d.mint.2 target
        .epsilon).addEdge .start target .epsilon)
      (Arrows.copyingLoop added .start (.fresh d.next) target) .start target (Repeated L) := by
  obtain ⟨hcoherent, hfinals, hnext, harrow⟩ := foldl_addEdge_from d.mint.2
    (d₁.graph.outgoing.neighbours .start) h.coherent
  have hfirst : ∀ label v, (label, v) ∈ d₁.graph.outgoing.neighbours .start ↔
      added .start label v := by
    intro label v
    refine (h.arrow_iff .start label v).trans ?_
    rw [Draft.graph_mint, arrow_addVertex]
    exact or_iff_right (hstart label v)
  refine ⟨?_, ?_, ?_, ?_, ?_, ?_⟩
  · rw [Draft.graph_addEdge, Draft.graph_addEdge]
    exact (hcoherent.addEdge _ _ _).addEdge _ _ _
  · rw [Draft.graph_addEdge, Draft.graph_addEdge, finals_addEdge, finals_addEdge, hfinals,
      h.finals, Draft.graph_mint, finals_addVertex]
  · rw [Draft.next_addEdge, Draft.next_addEdge, hnext]
    exact Nat.le_of_succ_le h.next_le
  · intro u label v
    rw [Draft.graph_addEdge, Draft.graph_addEdge, arrow_addEdge, arrow_addEdge, harrow,
      h.arrow_iff, Draft.graph_mint, arrow_addVertex, hfirst]
    unfold Arrows.copyingLoop Arrows.both
    rw [or_assoc, or_assoc, or_assoc, or_assoc, or_assoc]
    exact Iff.rfl
  · have hlater : Settled d.mint.1.next target := ht.mono (Nat.le_succ _)
    have hne : State.fresh d.next ≠ target := by
      rintro rfl
      exact Nat.lt_irrefl _ ht
    rw [Draft.next_addEdge, Draft.next_addEdge, hnext]
    refine (h.fragment.copyingLoop hlater.not_owned hne h.no_return).widen ?_ ht.not_owned
    rintro v (hv | rfl)
    · exact hv.widen (Nat.le_succ _) (Nat.le_refl _) id
    · exact ⟨Nat.le_refl _, h.next_le⟩
  · rintro u label (((ha | ⟨-, ha⟩) | ⟨-, -, rfl⟩) | ⟨-, -, rfl⟩)
    · exact h.no_return u label ha
    · exact h.no_return .start label ha
    · exact ht
    · exact ht

theorem closeLoop (h : Attached d.mint.1 d₁ added entry d.mint.2 L) (ht : Settled d.next target)
    (hstart : entry = .start → ∀ label v, ¬d.graph.Arrow .start label v) :
    (∃ added, Attached d (d₁.closeLoop d.mint.2 entry target).1 added
      (d₁.closeLoop d.mint.2 entry target).2 target (Repeated L)) ∧
    ((d₁.closeLoop d.mint.2 entry target).2 = .start ↔ entry = .start) := by
  unfold Draft.closeLoop
  split
  · rename_i hentry
    subst hentry
    exact ⟨⟨_, h.copyingLoop ht (hstart rfl)⟩, by simp⟩
  · rename_i hentry
    exact ⟨⟨_, h.loop hentry ht⟩, by simp [hentry]⟩

end Attached

end RegexCompiler
