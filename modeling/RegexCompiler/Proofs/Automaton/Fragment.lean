import RegexCompiler.Proofs.Graph.Walks
import RegexCompiler.Regex.Language

/-!
# Fragments of automata

A fragment is a set of arrows with an entry and an exit. Its arrows begin inside and stay inside,
unless they lead to the exit, so a walk that is inside can only leave through the exit. Therefore
the words of joined fragments are made of the words of their parts, even where an entry is shared:
it can be shared if no arrow leads back to it.
-/

namespace RegexCompiler

lemma concatenated_nil_right {L : List Char → Prop} : Concatenated L (· = []) = L := by
  funext word
  rw [eq_iff_iff]
  constructor
  · rintro ⟨first, _, hfirst, rfl, rfl⟩
    rwa [List.append_nil]
  · intro hword
    exact ⟨word, [], hword, rfl, (List.append_nil word).symm⟩

lemma concatenated_nil_left {L : List Char → Prop} : Concatenated (· = []) L = L := by
  funext word
  rw [eq_iff_iff]
  constructor
  · rintro ⟨_, rest, rfl, hrest, rfl⟩
    exact hrest
  · intro hword
    exact ⟨[], word, rfl, hword, rfl⟩

/-- The arrow from `u` to `v` alone. -/
def Arrows.one {V : Type} (u : V) (label : Label) (v : V) : Arrows V := fun x mark y =>
  x = u ∧ mark = label ∧ y = v

/-- The arrows of two sets. -/
def Arrows.both {V : Type} (first second : Arrows V) : Arrows V := fun x mark y =>
  first x mark y ∨ second x mark y

/-- The arrows at `u`, copied to begin at `again`. -/
def Arrows.copy {V : Type} (arrows : Arrows V) (u again : V) : Arrows V := fun x mark y =>
  x = again ∧ arrows u mark y

/-- The arrows of two alternatives, with an ε arrow from the entry of one to that of the other. -/
def Arrows.choice {V : Type} (first second : Arrows V) (entry other : V) : Arrows V :=
  both (both first second) (one entry .epsilon other)

/-- The arrows of a body from `entry` to `again`, closed to a loop that ends at `exit`. -/
def Arrows.loop {V : Type} (body : Arrows V) (entry again exit : V) : Arrows V :=
  both (both body (one again .epsilon entry)) (one again .epsilon exit)

/-- The arrows of such a loop that does not lead back to the entry. -/
def Arrows.copyingLoop {V : Type} (body : Arrows V) (entry again exit : V) : Arrows V :=
  both (both (both body (copy body entry again)) (one again .epsilon exit))
    (one entry .epsilon exit)

/-- Arrows that lead from an entry to an exit over the words of a language. -/
structure Fragment {V : Type} (inside : V → Prop) (arrows : Arrows V) (entry exit : V)
    (L : List Char → Prop) : Prop where
  entry_inside : inside entry
  exit_outside : ¬inside exit
  source_inside : ∀ {u label v}, arrows u label v → inside u
  target_inside : ∀ {u label v}, arrows u label v → inside v ∨ v = exit
  words : ∀ word, Walk arrows entry word exit ↔ L word

namespace Fragment

open Arrows

variable {V : Type} {inside inside₁ inside₂ : V → Prop} {arrows arrows₁ arrows₂ : Arrows V}
  {entry entry₁ entry₂ middle exit again : V} {L M : List Char → Prop}

lemma widen {larger : V → Prop} (h : Fragment inside arrows entry exit L)
    (hsub : ∀ v, inside v → larger v) (hexit : ¬larger exit) :
    Fragment larger arrows entry exit L where
  entry_inside := hsub _ h.entry_inside
  exit_outside := hexit
  source_inside ha := hsub _ (h.source_inside ha)
  target_inside ha := (h.target_inside ha).imp_left (hsub _)
  words := h.words

lemma stuck (h : Fragment inside arrows entry exit L) (label : Label) (v : V) :
    ¬arrows exit label v :=
  fun ha => h.exit_outside (h.source_inside ha)

lemma entry_ne_exit (h : Fragment inside arrows entry exit L) : entry ≠ exit := by
  rintro rfl
  exact h.exit_outside h.entry_inside

/-- Inside a fragment a walk along more arrows uses those of the fragment, until it comes to the
exit. -/
lemma exists_exit (h : Fragment inside arrows entry exit L) {others : Arrows V}
    (hinner : ∀ u label v, inside u → others u label v → arrows u label v) {u w : V}
    {word : List Char} (hw : Walk others u word w) (hu : inside u) (hout : ¬inside w) :
    ∃ first rest, word = first ++ rest ∧ Walk arrows u first exit ∧ Walk others exit rest w := by
  have hleave : ∀ {u label v}, inside u → others u label v →
      arrows u label v ∧ (inside v ∨ v = exit) := by
    intro u label v hu ha
    have hown := hinner u label v hu ha
    exact ⟨hown, h.target_inside hown⟩
  exact Walk.exists_leave hleave hw hu hout

lemma words_of_inner (h : Fragment inside arrows entry exit L) {others : Arrows V}
    (hinner : ∀ u label v, inside u → others u label v → arrows u label v)
    (hstuck : ∀ label v, ¬others exit label v) {word : List Char}
    (hw : Walk others entry word exit) : L word := by
  obtain ⟨first, rest, rfl, hfirst, hrest⟩ :=
    h.exists_exit hinner hw h.entry_inside h.exit_outside
  obtain ⟨rfl, -⟩ := Walk.eq_of_stuck hstuck hrest
  rw [List.append_nil]
  exact (h.words first).mp hfirst

lemma words_of_first (h : Fragment inside arrows entry exit L)
    (hback : ∀ u label, ¬arrows u label entry) {others : Arrows V}
    (hinner : ∀ u label v, inside u → u ≠ entry → others u label v → arrows u label v)
    (hstuck : ∀ label v, ¬others exit label v) {v : V} {label : Label} {rest : List Char}
    (ha : arrows entry label v) (hrest : Walk others v rest exit) : L (label.word ++ rest) := by
  have honward : ∀ {u mark w}, inside u ∧ u ≠ entry → others u mark w →
      arrows u mark w ∧ ((inside w ∧ w ≠ entry) ∨ w = exit) := by
    rintro u mark w ⟨hu, hne⟩ hw
    have hown := hinner u mark w hu hne hw
    have hw : w ≠ entry := by
      rintro rfl
      exact hback _ _ hown
    exact ⟨hown, (h.target_inside hown).imp_left fun h => ⟨h, hw⟩⟩
  rw [← h.words]
  rcases h.target_inside ha with hv | rfl
  · have hne : v ≠ entry := by
      rintro rfl
      exact hback _ _ ha
    exact .cons ha (Walk.confined honward hstuck (fun h' => h.exit_outside h'.1) hrest ⟨hv, hne⟩)
  · obtain ⟨rfl, -⟩ := Walk.eq_of_stuck hstuck hrest
    exact .cons ha (.refl _)

lemma one {u v : V} (label : Label) (huv : u ≠ v) :
    Fragment (· = u) (one u label v) u v (· = label.word) where
  entry_inside := rfl
  exit_outside := fun h => huv h.symm
  source_inside := And.left
  target_inside ha := Or.inr ha.2.2
  words word := by
    have hstuck : ∀ mark w, ¬Arrows.one u label v v mark w := fun mark w ha => huv ha.1.symm
    constructor
    · intro hw
      cases hw with
      | refl => exact absurd rfl huv
      | cons ha hrest =>
        obtain ⟨-, rfl, rfl⟩ := ha
        obtain ⟨rfl, -⟩ := Walk.eq_of_stuck hstuck hrest
        exact List.append_nil _
    · rintro rfl
      exact Walk.single ⟨rfl, rfl, rfl⟩

theorem chain (h₁ : Fragment inside₁ arrows₁ entry middle L)
    (h₂ : Fragment inside₂ arrows₂ middle exit M) (hapart : ∀ v, inside₁ v → ¬inside₂ v)
    (hexit : ¬inside₁ exit) :
    Fragment (fun v => inside₁ v ∨ inside₂ v) (both arrows₁ arrows₂) entry exit
      (Concatenated L M) where
  entry_inside := Or.inl h₁.entry_inside
  exit_outside := not_or.mpr ⟨hexit, h₂.exit_outside⟩
  source_inside := by
    rintro u label v (ha | ha)
    · exact Or.inl (h₁.source_inside ha)
    · exact Or.inr (h₂.source_inside ha)
  target_inside := by
    rintro u label v (ha | ha)
    · rcases h₁.target_inside ha with hv | rfl
      · exact Or.inl (Or.inl hv)
      · exact Or.inl (Or.inr h₂.entry_inside)
    · exact (h₂.target_inside ha).imp_left Or.inr
  words word := by
    have hfirst : ∀ u label v, inside₁ u → both arrows₁ arrows₂ u label v →
        arrows₁ u label v := by
      rintro u label v hu (ha | ha)
      · exact ha
      · exact absurd (h₂.source_inside ha) (hapart u hu)
    have hsecond : ∀ u label v, inside₂ u → both arrows₁ arrows₂ u label v →
        arrows₂ u label v := by
      rintro u label v hu (ha | ha)
      · exact absurd hu (hapart u (h₁.source_inside ha))
      · exact ha
    have hstuck : ∀ label v, ¬both arrows₁ arrows₂ exit label v := by
      rintro label v (ha | ha)
      · exact hexit (h₁.source_inside ha)
      · exact h₂.stuck label v ha
    constructor
    · intro hw
      obtain ⟨first, rest, rfl, hbegin, hend⟩ :=
        h₁.exists_exit hfirst hw h₁.entry_inside hexit
      exact ⟨first, rest, (h₁.words first).mp hbegin, h₂.words_of_inner hsecond hstuck hend, rfl⟩
    · rintro ⟨first, rest, hL, hM, rfl⟩
      have hbegin : Walk (both arrows₁ arrows₂) entry first middle :=
        ((h₁.words first).mpr hL).mono fun _ _ _ ha => Or.inl ha
      have hend : Walk (both arrows₁ arrows₂) middle rest exit :=
        ((h₂.words rest).mpr hM).mono fun _ _ _ ha => Or.inr ha
      exact hbegin.trans hend

lemma enter (h : Fragment inside arrows entry exit L) {hub : V} (hhub : ¬inside hub)
    (hexit : hub ≠ exit) :
    Fragment (fun v => v = hub ∨ inside v) (both (Arrows.one hub .epsilon entry) arrows) hub exit
      L := by
  have hne : hub ≠ entry := by
    rintro rfl
    exact hhub h.entry_inside
  have hchain := (one .epsilon hne).chain h (by rintro _ rfl; exact hhub) (Ne.symm hexit)
  have hlanguage : Concatenated (· = Label.epsilon.word) L = L := concatenated_nil_left
  rwa [hlanguage] at hchain

/-- Two alternatives, entered where the first one begins: no arrow leads back there, so a walk that
has begun with one alternative stays in it. -/
theorem choice (h₁ : Fragment inside₁ arrows₁ entry₁ exit L)
    (h₂ : Fragment inside₂ arrows₂ entry₂ exit M) (hapart : ∀ v, inside₁ v → ¬inside₂ v)
    (hback : ∀ u label, ¬arrows₁ u label entry₁) :
    Fragment (fun v => inside₁ v ∨ inside₂ v)
      (Arrows.choice arrows₁ arrows₂ entry₁ entry₂) entry₁ exit (fun word => L word ∨ M word) where
  entry_inside := Or.inl h₁.entry_inside
  exit_outside := not_or.mpr ⟨h₁.exit_outside, h₂.exit_outside⟩
  source_inside := by
    rintro u label v ((ha | ha) | ⟨rfl, -, -⟩)
    · exact Or.inl (h₁.source_inside ha)
    · exact Or.inr (h₂.source_inside ha)
    · exact Or.inl h₁.entry_inside
  target_inside := by
    rintro u label v ((ha | ha) | ⟨-, -, rfl⟩)
    · exact (h₁.target_inside ha).imp_left Or.inl
    · exact (h₂.target_inside ha).imp_left Or.inr
    · exact Or.inl (Or.inr h₂.entry_inside)
  words word := by
    have hentry := hapart entry₁ h₁.entry_inside
    have hfirst : ∀ u label v, inside₁ u → u ≠ entry₁ →
        Arrows.choice arrows₁ arrows₂ entry₁ entry₂ u label v → arrows₁ u label v := by
      rintro u label v hu hne ((ha | ha) | ⟨rfl, -, -⟩)
      · exact ha
      · exact absurd (h₂.source_inside ha) (hapart u hu)
      · exact absurd rfl hne
    have hsecond : ∀ u label v, inside₂ u →
        Arrows.choice arrows₁ arrows₂ entry₁ entry₂ u label v →
        arrows₂ u label v := by
      rintro u label v hu ((ha | ha) | ⟨rfl, -, -⟩)
      · exact absurd hu (hapart u (h₁.source_inside ha))
      · exact ha
      · exact absurd hu hentry
    have hstuck : ∀ label v, ¬Arrows.choice arrows₁ arrows₂ entry₁ entry₂ exit label v := by
      rintro label v ((ha | ha) | ⟨hexit, -, -⟩)
      · exact h₁.stuck label v ha
      · exact h₂.stuck label v ha
      · exact h₁.entry_ne_exit hexit.symm
    constructor
    · intro hw
      cases hw with
      | refl => exact absurd rfl h₁.entry_ne_exit
      | cons ha hrest =>
        rcases ha with (ha | ha) | ⟨-, rfl, rfl⟩
        · exact Or.inl (h₁.words_of_first hback hfirst hstuck ha hrest)
        · exact absurd (h₂.source_inside ha) hentry
        · exact Or.inr (h₂.words_of_inner hsecond hstuck hrest)
    · rintro (hL | hM)
      · exact ((h₁.words word).mpr hL).mono fun _ _ _ ha => Or.inl (Or.inl ha)
      · have hrest : Walk (Arrows.choice arrows₁ arrows₂ entry₁ entry₂) entry₂ word exit :=
          ((h₂.words word).mpr hM).mono fun _ _ _ ha => Or.inl (Or.inr ha)
        exact Walk.cons (Or.inr ⟨rfl, rfl, rfl⟩) hrest

/-! ### Repetitions -/

/-- A walk through a repetition is, where it stands, at the beginning of a round, inside one, or
over. -/
lemma repeated_of_walk (h : Fragment inside arrows entry again L) {others : Arrows V}
    (begins : V → Prop) {exit : V} (hexit : ¬inside exit) (hend : ¬begins exit)
    (hround : ∀ u label v, inside u → ¬begins u → others u label v →
      arrows u label v ∧ (¬begins v ∨ v = again))
    (hbegin : ∀ u label v, begins u → others u label v →
      (label = .epsilon ∧ v = exit) ∨ (label = .epsilon ∧ v = entry ∧ ¬begins entry) ∨
      (arrows entry label v ∧ (¬begins v ∨ v = again)))
    (hagain : begins again) (hstuck : ∀ label v, ¬others exit label v)
    {u : V} {word : List Char} (hw : Walk others u word exit) :
    (begins u → Repeated L word) ∧
      (inside u → ¬begins u → ∃ first rest, word = first ++ rest ∧ Walk arrows u first again ∧
        Repeated L rest) ∧
      (u = exit → word = []) := by
  induction hw using Walk.head_induction with
  | refl => exact ⟨fun h => absurd h hend, fun h => absurd h hexit, fun _ => rfl⟩
  | @cons u v label word ha hw ih =>
    obtain ⟨ihbegin, ihinside, ihexit⟩ := ih
    -- what an arrow of the body begins is a walk of the body and then more rounds
    have hbody : ∀ {x}, arrows x label v → (¬begins v ∨ v = again) →
        ∃ first rest, label.word ++ word = first ++ rest ∧ Walk arrows x first again ∧
          Repeated L rest := by
      intro x hx hv
      by_cases hvagain : v = again
      · rw [hvagain] at hx ihbegin
        exact ⟨label.word, word, rfl, Walk.single hx, ihbegin hagain⟩
      · obtain ⟨first, rest, rfl, hfirst, hrest⟩ :=
          ihinside ((h.target_inside hx).resolve_right hvagain) (hv.resolve_right hvagain)
        exact ⟨label.word ++ first, rest, (List.append_assoc ..).symm, .cons hx hfirst, hrest⟩
    refine ⟨fun hu => ?_, fun hu hnot => ?_, fun hu => ?_⟩
    · rcases hbegin u label v hu ha with ⟨rfl, rfl⟩ | ⟨rfl, rfl, hnot⟩ | ⟨hx, hv⟩
      · rw [ihexit rfl]
        exact .none
      · obtain ⟨first, rest, rfl, hfirst, hrest⟩ := ihinside h.entry_inside hnot
        have hwhole : Repeated L (first ++ rest) := .more ((h.words first).mp hfirst) hrest
        exact hwhole
      · obtain ⟨first, rest, heq, hfirst, hrest⟩ := hbody hx hv
        rw [heq]
        exact .more ((h.words first).mp hfirst) hrest
    · obtain ⟨hx, hv⟩ := hround u label v hu hnot ha
      exact hbody hx hv
    · rw [hu] at ha
      exact absurd ha (hstuck label v)

theorem loop (h : Fragment inside arrows entry again L) {exit : V} (hexit : ¬inside exit)
    (hagain : again ≠ exit) :
    Fragment (fun v => inside v ∨ v = again)
      (Arrows.loop arrows entry again exit) again exit (Repeated L) where
  entry_inside := Or.inr rfl
  exit_outside := not_or.mpr ⟨hexit, Ne.symm hagain⟩
  source_inside := by
    rintro u label v ((ha | ⟨rfl, -, -⟩) | ⟨rfl, -, -⟩)
    · exact Or.inl (h.source_inside ha)
    · exact Or.inr rfl
    · exact Or.inr rfl
  target_inside := by
    rintro u label v ((ha | ⟨-, -, rfl⟩) | ⟨-, -, rfl⟩)
    · exact Or.inl (h.target_inside ha)
    · exact Or.inl (Or.inl h.entry_inside)
    · exact Or.inr rfl
  words word := by
    constructor
    · intro hw
      refine (h.repeated_of_walk (· = again) hexit (Ne.symm hagain) ?_ ?_ rfl ?_ hw).1 rfl
      · rintro u label v hu hnot ((ha | ⟨rfl, -, -⟩) | ⟨rfl, -, -⟩)
        · exact ⟨ha, (em _).symm⟩
        · exact absurd rfl hnot
        · exact absurd rfl hnot
      · rintro u label v rfl ((ha | ⟨-, rfl, rfl⟩) | ⟨-, rfl, rfl⟩)
        · exact absurd ha (h.stuck label v)
        · exact Or.inr (Or.inl ⟨rfl, rfl, h.entry_ne_exit⟩)
        · exact Or.inl ⟨rfl, rfl⟩
      · rintro label v ((ha | ⟨rfl, -, -⟩) | ⟨rfl, -, -⟩)
        · exact hexit (h.source_inside ha)
        · exact hagain rfl
        · exact hagain rfl
    · intro hrounds
      induction hrounds with
      | none =>
        have hlast : Arrows.loop arrows entry again exit again .epsilon exit :=
          Or.inr ⟨rfl, rfl, rfl⟩
        exact Walk.single hlast
      | @more first rest hfirst _ ih =>
        have hback : Arrows.loop arrows entry again exit again .epsilon entry :=
          Or.inl (Or.inr ⟨rfl, rfl, rfl⟩)
        have hbody : Walk (Arrows.loop arrows entry again exit) entry first again :=
          ((h.words first).mpr hfirst).mono fun _ _ _ ha => Or.inl (Or.inl ha)
        exact Walk.cons hback (hbody.trans ih)

/-- A repetition that is entered where its body begins: further rounds begin over copies of the
first arrows, so that still no arrow leads back to the entry. -/
theorem copyingLoop (h : Fragment inside arrows entry again L) {exit : V} (hexit : ¬inside exit)
    (hagain : again ≠ exit) (hback : ∀ u label, ¬arrows u label entry) :
    Fragment (fun v => inside v ∨ v = again)
      (Arrows.copyingLoop arrows entry again exit) entry exit (Repeated L) where
  entry_inside := Or.inl h.entry_inside
  exit_outside := not_or.mpr ⟨hexit, Ne.symm hagain⟩
  source_inside := by
    rintro u label v (((ha | ⟨rfl, -⟩) | ⟨rfl, -, -⟩) | ⟨rfl, -, -⟩)
    · exact Or.inl (h.source_inside ha)
    · exact Or.inr rfl
    · exact Or.inr rfl
    · exact Or.inl h.entry_inside
  target_inside := by
    rintro u label v (((ha | ⟨-, ha⟩) | ⟨-, -, rfl⟩) | ⟨-, -, rfl⟩)
    · exact Or.inl (h.target_inside ha)
    · exact Or.inl (h.target_inside ha)
    · exact Or.inr rfl
    · exact Or.inr rfl
  words word := by
    have hne : exit ≠ entry := by
      rintro rfl
      exact hexit h.entry_inside
    have hforward : ∀ {u label v}, arrows u label v → ¬(v = entry ∨ v = again) ∨ v = again := by
      intro u label v ha
      by_cases hv : v = again
      · exact Or.inr hv
      · refine Or.inl (not_or.mpr ⟨?_, hv⟩)
        rintro rfl
        exact hback _ _ ha
    constructor
    · intro hw
      refine (h.repeated_of_walk (fun v => v = entry ∨ v = again) hexit
        (not_or.mpr ⟨hne, Ne.symm hagain⟩) ?_ ?_ (Or.inr rfl) ?_ hw).1 (Or.inl rfl)
      · rintro u label v hu hnot (((ha | ⟨rfl, -⟩) | ⟨rfl, -, -⟩) | ⟨rfl, -, -⟩)
        · exact ⟨ha, hforward ha⟩
        · exact absurd (Or.inr rfl) hnot
        · exact absurd (Or.inr rfl) hnot
        · exact absurd (Or.inl rfl) hnot
      · rintro u label v hu (((ha | ⟨-, ha⟩) | ⟨-, rfl, rfl⟩) | ⟨-, rfl, rfl⟩)
        · rcases hu with rfl | rfl
          · exact Or.inr (Or.inr ⟨ha, hforward ha⟩)
          · exact absurd ha (h.stuck label v)
        · exact Or.inr (Or.inr ⟨ha, hforward ha⟩)
        · exact Or.inl ⟨rfl, rfl⟩
        · exact Or.inl ⟨rfl, rfl⟩
      · rintro label v (((ha | ⟨rfl, -⟩) | ⟨rfl, -, -⟩) | ⟨rfl, -, -⟩)
        · exact hexit (h.source_inside ha)
        · exact hagain rfl
        · exact hagain rfl
        · exact hne rfl
    · intro hrounds
      -- the rounds behind the first one begin at the end of the body
      suffices hboth : ∀ u, u = entry ∨ u = again →
          Walk (Arrows.copyingLoop arrows entry again exit) u word exit from
        hboth entry (Or.inl rfl)
      induction hrounds with
      | none =>
        intro u hu
        have hlast : Arrows.copyingLoop arrows entry again exit u .epsilon exit := by
          rcases hu with rfl | rfl
          · exact Or.inr ⟨rfl, rfl, rfl⟩
          · exact Or.inl (Or.inr ⟨rfl, rfl, rfl⟩)
        exact Walk.single hlast
      | @more first rest hfirst _ ih =>
        intro u hu
        refine Walk.trans ?_ (ih again (Or.inr rfl))
        cases (h.words first).mpr hfirst with
        | refl => exact absurd rfl h.entry_ne_exit
        | cons ha hw =>
          refine .cons ?_ (hw.mono fun _ _ _ ha => Or.inl (Or.inl (Or.inl ha)))
          rcases hu with rfl | rfl
          · exact Or.inl (Or.inl (Or.inl ha))
          · exact Or.inl (Or.inl (Or.inr ⟨rfl, ha⟩))

end Fragment

end RegexCompiler
