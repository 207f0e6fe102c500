import StyleHoist.Proofs.Style.Cursor
import StyleHoist.Proofs.Text.Place

/-!
# The way back to a literal

Where the parts of a script are laid out as nested ranges of its text, a cursor at the start of a literal points at it
unless something is in the way: a literal or a reference around it, an earlier literal of the same element, or an
element with a literal that ends just there.

- `Sites.LaidOut`: the layout, which can be decided.
- `Sites.Contests`: what is in the way.
- `Sites.LaidOut.findAt_start_iff`: the start of a literal leads to it if and only if nothing is in the way.
-/

namespace StyleHoist

open Text

/-! ## Nested ranges -/

/-- A range holds another one, with more on both sides. -/
def Span.Holds (outer inner : Span) : Prop :=
  outer.start < inner.start ∧ inner.stop < outer.stop

instance (outer inner : Span) : Decidable (outer.Holds inner) :=
  inferInstanceAs (Decidable (_ ∧ _))

/-- The object literals of an array that a style attribute is given. -/
def Site.objects (s : Site) : List Span :=
  match s.content with
  | .array objects => objects
  | _ => []

/-- A style attribute stands before another: the other begins behind it, or is held by its value. If the value is an
array, the other is then held by an object of it or stands clear of it. -/
def Site.StandsBefore (r s : Site) : Prop :=
  r.attr.stop ≤ s.attr.start ∨ r.value.Holds s.attr ∧
    ∀ x ∈ r.objects, s.attr.stop < x.start ∨ x.stop < s.attr.start ∨ x.Holds s.attr

instance (r s : Site) : Decidable (r.StandsBefore s) :=
  inferInstanceAs (Decidable (_ ∨ _))

/-- A character that ends no line starts at the offset. -/
def startsCharacter (t : Text) (offset : Nat) : Bool :=
  match splitAt? t offset with
  | some (_, c :: _) => c != '\n' && c != '\r'
  | _ => false

/-- The style attributes and elements of a script are laid out as nested ranges of its text, in the order in which they
are listed. -/
structure Sites.LaidOut (sites : Sites) (t : Text) : Prop where
  value : ∀ s ∈ sites.sites, s.attr.Holds s.value ∧ s.value.start < s.value.stop
  objects : ∀ s ∈ sites.sites, ∀ x ∈ s.objects, s.value.start ≤ x.start ∧ x.start < x.stop ∧ x.stop ≤ s.value.stop
  objectsApart : ∀ s ∈ sites.sites, s.objects.Pairwise fun x y => x.stop < y.start
  ordered : sites.sites.Pairwise Site.StandsBefore
  element : ∀ e ∈ sites.numbered, e.2.range.start < e.2.range.stop
  nested : sites.numbered.Pairwise fun e f =>
    e.2.range.stop ≤ f.2.range.start ∨ e.2.range.Holds f.2.range ∧ e.2.depth < f.2.depth
  /-- An element holds a style attribute, is held by it or stands clear of it. -/
  clear : ∀ s ∈ sites.sites, ∀ e ∈ sites.numbered,
    e.2.range.Holds s.attr ∨ e.2.range.Apart s.attr ∨ s.attr.Holds e.2.range
  /-- The element to which a style attribute belongs is the deepest one that holds it. -/
  owner : ∀ s ∈ sites.sites, ∃ e ∈ sites.numbered, s.element = some e.1 ∧ e.2.range.Holds s.attr ∧
    ∀ f ∈ sites.numbered, f.2.range.Holds s.attr → f.2.depth ≤ e.2.depth
  characters : ∀ s ∈ sites.sites, startsCharacter t s.attr.start = true ∧
    ∀ x ∈ s.objects, startsCharacter t x.start = true

/-! ## What is in the way of a literal -/

/-- A style attribute is a literal or an array with literals. -/
def Site.HasLiteral (s : Site) : Prop :=
  match s.content with
  | .object _ => True
  | .array objects => objects ≠ []
  | .member | .other => False

/-- A style attribute lays claim to a range: it is a reference or a literal around it, or an array with a literal around
it. -/
def Site.Claims (s : Site) (range : Span) : Prop :=
  match s.content with
  | .member | .object _ => s.value.Holds range
  | .array objects => ∃ x ∈ objects, x.Holds range
  | .other => False

/-- The start of a literal leads elsewhere. -/
inductive Sites.Contests (sites : Sites) (target : StyleTarget) : Prop
  /-- The literal stands inside a style attribute that lays claim to it. -/
  | enclosed (r : Site) (hr : r ∈ sites.sites) (h : r.Claims target.range)
  /-- The literal is a whole attribute, and its element has a literal before it. -/
  | preceded (hkind : target.kind = .wholeAttribute) (r s : Site) (hr : r ∈ sites.sites) (hs : s ∈ sites.sites)
      (hattr : s.attr = target.range) (helement : r.element = s.element) (hstart : r.attr.start < s.attr.start)
      (h : r.HasLiteral)
  /-- The literal is a whole attribute, and an element with a literal of its own ends where it begins. -/
  | adjoined (hkind : target.kind = .wholeAttribute) (e : Nat × ElementRange) (he : e ∈ sites.numbered)
      (hstop : e.2.range.stop = target.range.start) (r : Site) (hr : r ∈ sites.sites)
      (helement : r.element = some e.1) (h : r.HasLiteral)

theorem Site.isSome_firstTarget?_iff {s : Site} {t : Text} : (s.firstTarget? t).isSome = true ↔ s.HasLiteral := by
  unfold Site.firstTarget? Site.targets Site.HasLiteral
  cases hcontent : s.content with
  | array objects => cases objects <;> simp
  | _ => simp

instance (s : Site) : Decidable s.HasLiteral :=
  decidable_of_iff ((s.firstTarget? []).isSome = true) Site.isSome_firstTarget?_iff

instance (s : Site) (range : Span) : Decidable (s.Claims range) :=
  match h : s.content with
  | .member => decidable_of_iff (s.value.Holds range) (by rw [Site.Claims, h])
  | .object _ => decidable_of_iff (s.value.Holds range) (by rw [Site.Claims, h])
  | .array objects => decidable_of_iff (∃ x ∈ objects, x.Holds range) (by rw [Site.Claims, h])
  | .other => .isFalse (by rw [Site.Claims, h]; exact id)

instance (sites : Sites) (target : StyleTarget) : Decidable (sites.Contests target) :=
  decidable_of_iff
    ((∃ r ∈ sites.sites, r.Claims target.range) ∨
      target.kind = .wholeAttribute ∧ (∃ r ∈ sites.sites, ∃ s ∈ sites.sites,
        s.attr = target.range ∧ r.element = s.element ∧ r.attr.start < s.attr.start ∧ r.HasLiteral) ∨
      target.kind = .wholeAttribute ∧ ∃ e ∈ sites.numbered, e.2.range.stop = target.range.start ∧
        ∃ r ∈ sites.sites, r.element = some e.1 ∧ r.HasLiteral)
    ⟨fun h => match h with
      | .inl ⟨r, hr, h⟩ => .enclosed r hr h
      | .inr (.inl ⟨hkind, r, hr, s, hs, hattr, helement, hstart, h⟩) =>
        .preceded hkind r s hr hs hattr helement hstart h
      | .inr (.inr ⟨hkind, e, he, hstop, r, hr, helement, h⟩) => .adjoined hkind e he hstop r hr helement h,
    fun h => match h with
      | .enclosed r hr h => .inl ⟨r, hr, h⟩
      | .preceded hkind r s hr hs hattr helement hstart h =>
        .inr (.inl ⟨hkind, r, hr, s, hs, hattr, helement, hstart, h⟩)
      | .adjoined hkind e he hstop r hr helement h => .inr (.inr ⟨hkind, e, he, hstop, r, hr, helement, h⟩)⟩

section Owned

variable {sites : Sites} {t : Text} {n : Nat} {target : StyleTarget}

theorem Sites.ownLiteral?_eq_some_iff : sites.ownLiteral? t n = some target ↔
    ∃ before r after, sites.sites.filter (fun s => s.element == some n) = before ++ r :: after ∧
      r.firstTarget? t = some target ∧ ∀ q ∈ before, q.firstTarget? t = none :=
  List.findSome?_eq_some_iff

theorem Sites.isSome_ownLiteral?_iff : (sites.ownLiteral? t n).isSome = true ↔
    ∃ r ∈ sites.sites, r.element = some n ∧ r.HasLiteral := by
  simp only [Sites.ownLiteral?, List.findSome?_isSome_iff, List.mem_filter, beq_iff_eq, Site.isSome_firstTarget?_iff,
    and_assoc]

end Owned

/-! ## Layout -/

namespace Sites.LaidOut

variable {sites : Sites} {t : Text} {target : StyleTarget}

instance (sites : Sites) (t : Text) : Decidable (sites.LaidOut t) :=
  decidable_of_iff
    ((∀ s ∈ sites.sites, s.attr.Holds s.value ∧ s.value.start < s.value.stop) ∧
      (∀ s ∈ sites.sites, ∀ x ∈ s.objects, s.value.start ≤ x.start ∧ x.start < x.stop ∧ x.stop ≤ s.value.stop) ∧
      (∀ s ∈ sites.sites, s.objects.Pairwise fun x y => x.stop < y.start) ∧
      sites.sites.Pairwise Site.StandsBefore ∧
      (∀ e ∈ sites.numbered, e.2.range.start < e.2.range.stop) ∧
      (sites.numbered.Pairwise fun e f =>
        e.2.range.stop ≤ f.2.range.start ∨ e.2.range.Holds f.2.range ∧ e.2.depth < f.2.depth) ∧
      (∀ s ∈ sites.sites, ∀ e ∈ sites.numbered,
        e.2.range.Holds s.attr ∨ (e.2.range.stop ≤ s.attr.start ∨ s.attr.stop ≤ e.2.range.start) ∨
          s.attr.Holds e.2.range) ∧
      (∀ s ∈ sites.sites, ∃ e ∈ sites.numbered, s.element = some e.1 ∧ e.2.range.Holds s.attr ∧
        ∀ f ∈ sites.numbered, f.2.range.Holds s.attr → f.2.depth ≤ e.2.depth) ∧
      ∀ s ∈ sites.sites, startsCharacter t s.attr.start = true ∧ ∀ x ∈ s.objects, startsCharacter t x.start = true)
    ⟨fun ⟨h₁, h₂, h₃, h₄, h₅, h₆, h₇, h₈, h₉⟩ => ⟨h₁, h₂, h₃, h₄, h₅, h₆, h₇, h₈, h₉⟩,
      fun ⟨h₁, h₂, h₃, h₄, h₅, h₆, h₇, h₈, h₉⟩ => ⟨h₁, h₂, h₃, h₄, h₅, h₆, h₇, h₈, h₉⟩⟩

theorem touches_iff {s : Span} {offset : Nat} : s.touches offset = true ↔ s.start ≤ offset ∧ offset ≤ s.stop := by
  simp [Span.touches]

/-- What an attribute lays claim to stands in it. -/
theorem holds_of_claims (h : sites.LaidOut t) {r : Site} (hr : r ∈ sites.sites) {range : Span}
    (hclaims : r.Claims range) : r.attr.Holds range := by
  obtain ⟨⟨hstart, hstop⟩, -⟩ := h.value r hr
  have hobjects := h.objects r hr
  unfold Site.Claims at hclaims
  unfold Site.objects at hobjects
  unfold Span.Holds at hclaims ⊢
  cases hcontent : r.content with
  | array objects =>
    rw [hcontent] at hclaims hobjects
    obtain ⟨x, hx, hclaims⟩ := hclaims
    have := hobjects x hx
    omega
  | other =>
    rw [hcontent] at hclaims
    exact absurd hclaims id
  | _ =>
    rw [hcontent] at hclaims
    dsimp only at hclaims
    omega

theorem start_lt_stop (h : sites.LaidOut t) {s : Site} (hs : s ∈ sites.sites) : s.attr.start < s.attr.stop := by
  obtain ⟨⟨hstart, hstop⟩, hvalue⟩ := h.value s hs
  omega

/-- An attribute that stands before another starts before it. -/
theorem start_lt (h : sites.LaidOut t) {r s : Site} (hr : r ∈ sites.sites) (hrs : r.StandsBefore s) :
    r.attr.start < s.attr.start := by
  obtain ⟨⟨hstart, hstop⟩, hvalue⟩ := h.value r hr
  rcases hrs with hbehind | ⟨⟨hin, -⟩, -⟩ <;> omega

/-- An attribute before another gives something at a part of that if and only if it lays claim to the part. -/
theorem isSome_locate?_iff (h : sites.LaidOut t) {r s : Site} (hr : r ∈ sites.sites) (hrs : r.StandsBefore s)
    {range : Span} (hstart : s.attr.start ≤ range.start) (hrange : range.start < range.stop)
    (hstop : range.stop ≤ s.attr.stop) : (r.locate? t range.start).isSome = true ↔ r.Claims range := by
  obtain ⟨⟨hvalue, hvalue'⟩, -⟩ := h.value r hr
  have hobjects := h.objects r hr
  rcases hrs with hbehind | ⟨⟨hin, hin'⟩, harray⟩
  · have hnone : r.locate? t range.start = none := by
      rw [Site.locate?, if_neg]
      rw [touches_iff]
      omega
    rw [hnone]
    refine iff_of_false (by simp) fun hclaims => ?_
    have := (h.holds_of_claims hr hclaims).2
    omega
  · have htouches : r.value.touches range.start = true := touches_iff.2 ⟨by omega, by omega⟩
    have hholds : r.value.Holds range := ⟨by omega, by omega⟩
    rw [Site.locate?, if_pos htouches]
    unfold Site.Claims
    unfold Site.objects at harray
    cases hcontent : r.content with
    | array objects =>
      rw [hcontent] at harray
      simp only [Option.isSome_map, List.find?_isSome]
      refine exists_congr fun x => and_congr_right fun hx => ?_
      rw [touches_iff]
      have := harray x hx
      unfold Span.Holds at this ⊢
      omega
    | other => simp
    | _ => simpa using hholds

/-- What an attribute before another gives at a part of that starts before it. -/
theorem start_lt_of_locate? (h : sites.LaidOut t) {r s : Site} (hr : r ∈ sites.sites) (hrs : r.StandsBefore s)
    {range : Span} (hstart : s.attr.start ≤ range.start) (hrange : range.start < range.stop)
    (hstop : range.stop ≤ s.attr.stop) (hr' : r.locate? t range.start = some (.target target)) :
    target.range.start < range.start := by
  have hstarts := h.start_lt hr hrs
  unfold Site.locate? at hr'
  split at hr'
  · rename_i htouches
    rw [touches_iff] at htouches
    obtain ⟨⟨hvalue, hvalue'⟩, -⟩ := h.value r hr
    cases hcontent : r.content with
    | object object =>
      simp only [hcontent, Option.some.injEq, Located.target.injEq] at hr'
      rw [← hr']
      show r.attr.start < range.start
      omega
    | array objects =>
      simp only [hcontent, Option.map_eq_some_iff, Located.target.injEq] at hr'
      obtain ⟨x, hx, rfl⟩ := hr'
      have hfound := List.find?_some hx
      have htouches' := touches_iff.1 hfound
      have hmem := List.mem_of_find?_eq_some hx
      rcases hrs with hbehind | ⟨-, harray⟩
      · omega
      · have := harray x (by rw [Site.objects, hcontent]; exact hmem)
        show x.start < range.start
        unfold Span.Holds at this
        omega
    | member => simp [hcontent] at hr'
    | other => simp [hcontent] at hr'
  · cases hr'

/-- An attribute gives nothing at an offset before its value. -/
theorem locate?_of_lt {s : Site} {offset : Nat} (h : offset < s.value.start) : s.locate? t offset = none := by
  rw [Site.locate?, if_neg]
  rw [touches_iff]
  omega

/-- An attribute is listed before another, is it, or is listed behind it. -/
theorem mem_split (h : sites.LaidOut t) {before after : List Site} {r s : Site}
    (hsplit : sites.sites = before ++ s :: after) (hr : r ∈ sites.sites) :
    (r ∈ before ∧ r.StandsBefore s) ∨ r = s ∨ (r ∈ after ∧ s.StandsBefore r) := by
  have hordered := h.ordered
  rw [hsplit] at hr hordered
  obtain ⟨-, hs, hbefore⟩ := List.pairwise_append.1 hordered
  rcases List.mem_append.1 hr with hr | hr
  · exact Or.inl ⟨hr, hbefore r hr s (by simp)⟩
  · rcases List.mem_cons.1 hr with rfl | hr
    · exact Or.inr (Or.inl rfl)
    · exact Or.inr (Or.inr ⟨hr, (List.pairwise_cons.1 hs).1 r hr⟩)

/-- Attributes that start at one offset are one. -/
theorem eq_of_start_eq (h : sites.LaidOut t) {r s : Site} (hr : r ∈ sites.sites) (hs : s ∈ sites.sites)
    (hstart : r.attr.start = s.attr.start) : r = s := by
  obtain ⟨before, after, hsplit⟩ := List.append_of_mem hs
  rcases h.mem_split hsplit hr with ⟨-, hrs⟩ | hrs | ⟨-, hsr⟩
  · have := h.start_lt hr hrs
    omega
  · exact hrs
  · have := h.start_lt hs hsr
    omega

/-- An attribute that starts before another is listed before it. -/
theorem mem_before_iff (h : sites.LaidOut t) {before after : List Site} {r s : Site}
    (hsplit : sites.sites = before ++ s :: after) (hr : r ∈ sites.sites) :
    r ∈ before ∧ r.StandsBefore s ↔ r.attr.start < s.attr.start := by
  have hs : s ∈ sites.sites := by simp [hsplit]
  rcases h.mem_split hsplit hr with hrs | rfl | ⟨-, hsr⟩
  · exact iff_of_true hrs (h.start_lt hr hrs.2)
  · refine iff_of_false (fun hrs => ?_) (Nat.lt_irrefl _)
    exact Nat.lt_irrefl _ (h.start_lt hr hrs.2)
  · have := h.start_lt hs hsr
    refine iff_of_false (fun hrs => ?_) (by omega)
    have := h.start_lt hr hrs.2
    omega

/-- Two elements stand clear of each other, or the one that is less deep holds the other. -/
theorem nested_of_ne (h : sites.LaidOut t) {e f : Nat × ElementRange} (he : e ∈ sites.numbered)
    (hf : f ∈ sites.numbered) (hne : f ≠ e) : e.2.range.Apart f.2.range ∨
      (e.2.range.Holds f.2.range ∧ e.2.depth < f.2.depth) ∨ f.2.range.Holds e.2.range ∧ f.2.depth < e.2.depth := by
  have hnested := h.nested
  obtain ⟨before, after, hsplit⟩ := List.append_of_mem he
  rw [hsplit] at hf hnested
  obtain ⟨-, he, hbefore⟩ := List.pairwise_append.1 hnested
  rcases List.mem_append.1 hf with hf | hf
  · exact (hbefore f hf e (by simp)).imp Or.inr Or.inr
  · have hf : f ∈ after := (List.mem_cons.1 hf).resolve_left hne
    exact ((List.pairwise_cons.1 he).1 f hf).imp Or.inl Or.inl

/-! ## Whole attributes -/

section Attribute

variable {s : Site} {object : Span}

/-- A whole attribute is the literal of one style attribute only. -/
theorem eq_of_firstTarget? (h : sites.LaidOut t) (hs : s ∈ sites.sites) {r : Site} (hr : r ∈ sites.sites)
    (hfirst : r.firstTarget? t = some (.make t s.attr object .wholeAttribute)) : r = s := by
  refine h.eq_of_start_eq hr hs ?_
  unfold Site.firstTarget? Site.targets at hfirst
  cases hcontent : r.content with
  | object o =>
    simp only [hcontent, List.head?_cons, Option.some.injEq] at hfirst
    exact congrArg (·.range.start) hfirst
  | array objects =>
    simp only [hcontent, List.head?_map, Option.map_eq_some_iff] at hfirst
    obtain ⟨x, -, hx⟩ := hfirst
    cases congrArg StyleTarget.kind hx
  | member => simp [hcontent] at hfirst
  | other => simp [hcontent] at hfirst

/-- A whole attribute is the first literal of its element if and only if the element has none before it. -/
theorem ownLiteral?_iff (h : sites.LaidOut t) (hs : s ∈ sites.sites) (hcontent : s.content = .object object) {n : Nat}
    (helement : s.element = some n) : sites.ownLiteral? t n = some (.make t s.attr object .wholeAttribute) ↔
      ∀ r ∈ sites.sites, r.element = s.element → r.attr.start < s.attr.start → ¬r.HasLiteral := by
  have hown : ∀ r, r ∈ sites.sites.filter (fun s => s.element == some n) ↔ r ∈ sites.sites ∧ r.element = some n :=
    fun r => by simp
  have hordered := h.ordered.filter fun s => s.element == some n
  rw [Sites.ownLiteral?_eq_some_iff]
  constructor
  · rintro ⟨before, s', after, hsplit, hfirst, hnone⟩ r hr hrelement hstart hliteral
    rw [hsplit] at hown hordered
    obtain rfl := h.eq_of_firstTarget? hs ((hown s').1 (by simp)).1 hfirst
    rcases List.mem_append.1 ((hown r).2 ⟨hr, hrelement.trans helement⟩) with hr' | hr'
    · rw [← Site.isSome_firstTarget?_iff, hnone r hr'] at hliteral
      cases hliteral
    · rcases List.mem_cons.1 hr' with rfl | hr'
      · omega
      · have hlate := (List.pairwise_cons.1 (List.pairwise_append.1 hordered).2.1).1 r hr'
        have := h.start_lt hs hlate
        omega
  · intro hnone
    obtain ⟨before, after, hsplit⟩ := List.append_of_mem ((hown s).2 ⟨hs, helement⟩)
    refine ⟨before, s, after, hsplit, by simp [Site.firstTarget?, Site.targets, hcontent], fun r hr => ?_⟩
    rw [hsplit] at hown hordered
    obtain ⟨hr', hrelement⟩ := (hown r).1 (by simp [hr])
    have hearly : r.StandsBefore s := (List.pairwise_append.1 hordered).2.2 r hr s (by simp)
    refine Option.not_isSome_iff_eq_none.1 fun hsome => ?_
    exact hnone r hr' (hrelement.trans helement.symm) (h.start_lt hr' hearly) (Site.isSome_firstTarget?_iff.1 hsome)

/-- What gives something at the start of an attribute starts before it. -/
theorem start_lt_of_isSome (h : sites.LaidOut t) {r : Site} (hr : r ∈ sites.sites)
    (hsome : (r.locate? t s.attr.start).isSome = true) : r.attr.start < s.attr.start := by
  by_contra hlate
  have hvalue := (h.value r hr).1.1
  rw [locate?_of_lt (by omega)] at hsome
  cases hsome

/-- What gives something at the start of an attribute is what lays claim to it. -/
theorem isSome_locate?_start_iff (h : sites.LaidOut t) (hs : s ∈ sites.sites) {r : Site} (hr : r ∈ sites.sites) :
    (r.locate? t s.attr.start).isSome = true ↔ r.Claims s.attr := by
  obtain ⟨before, after, hsplit⟩ := List.append_of_mem hs
  have hrange := h.start_lt_stop hs
  have hiff : r.attr.start < s.attr.start →
      ((r.locate? t s.attr.start).isSome = true ↔ r.Claims s.attr) := fun hstart =>
    h.isSome_locate?_iff hr ((h.mem_before_iff hsplit hr).2 hstart).2 (Nat.le_refl _) hrange (Nat.le_refl _)
  constructor
  · exact fun hsome => (hiff (h.start_lt_of_isSome hr hsome)).1 hsome
  · exact fun hclaims => (hiff (h.holds_of_claims hr hclaims).1).2 hclaims

/-- No style attribute gives a whole attribute at its start: what gives something there starts before it, and so does
what it gives. -/
theorem locate?_start_ne (h : sites.LaidOut t) (hs : s ∈ sites.sites) {r : Site} (hr : r ∈ sites.sites) :
    r.locate? t s.attr.start ≠ some (.target (.make t s.attr object .wholeAttribute)) := by
  intro hgives
  obtain ⟨before, after, hsplit⟩ := List.append_of_mem hs
  have hstart := h.start_lt_of_isSome hr (by rw [hgives]; rfl)
  have hearly := h.start_lt_of_locate? hr ((h.mem_before_iff hsplit hr).2 hstart).2 (Nat.le_refl _)
    (h.start_lt_stop hs) (Nat.le_refl _) hgives
  exact Nat.lt_irrefl _ hearly

/-- An element that ends where a style attribute starts is deeper than the elements that hold the attribute. -/
theorem depth_lt_of_stop_eq (h : sites.LaidOut t) (hs : s ∈ sites.sites) {e f : Nat × ElementRange}
    (he : e ∈ sites.numbered) (hf : f ∈ sites.numbered) (hholds : e.2.range.Holds s.attr)
    (hstop : f.2.range.stop = s.attr.start) : e.2.depth < f.2.depth := by
  obtain ⟨hestart, hestop⟩ := hholds
  have hattr := h.start_lt_stop hs
  have hf' := h.element f hf
  have hne : f ≠ e := by
    rintro rfl
    omega
  rcases h.nested_of_ne he hf hne with hapart | ⟨-, hdeep⟩ | ⟨⟨hfstart, hfstop⟩, -⟩
  · unfold Span.Apart at hapart
    omega
  · exact hdeep
  · omega

/-- A whole attribute to which its start leads has nothing in the way. -/
theorem not_contests_of_pointsAt (h : sites.LaidOut t) (hs : s ∈ sites.sites) (hcontent : s.content = .object object)
    (hpoints : sites.PointsAt t s.attr.start (.make t s.attr object .wholeAttribute)) :
    ¬sites.Contests (.make t s.attr object .wholeAttribute) := by
  cases hpoints with
  | value before r after hsplit hbefore hgives => exact absurd hgives (h.locate?_start_ne hs (by simp [hsplit]))
  | element e hnone he htouches hown hfirst =>
    obtain ⟨before, r, after, hsplit, hr, -⟩ := Sites.ownLiteral?_eq_some_iff.1 hown
    obtain ⟨hmem, hrelement⟩ : r ∈ sites.sites ∧ r.element = some e.1 := by
      have : r ∈ sites.sites.filter fun s => s.element == some e.1 := by simp [hsplit]
      simpa using this
    obtain rfl := (h.eq_of_firstTarget? hs hmem hr).symm
    intro hcontests
    cases hcontests with
    | enclosed q hq hclaims =>
      have hsome := (h.isSome_locate?_start_iff hs hq).2 hclaims
      rw [hnone q hq] at hsome
      cases hsome
    | preceded _ q s' hq hs' hattr hqelement hstart hliteral =>
      obtain rfl := h.eq_of_start_eq hs' hs (congrArg Span.start hattr)
      exact (h.ownLiteral?_iff hs hcontent hrelement).1 hown q hq hqelement hstart hliteral
    | adjoined _ f hf hstop q hq hqelement hliteral =>
      obtain ⟨owner, howner, helement, hholds, -⟩ := h.owner s hs
      obtain rfl := sites.eq_of_mem_numbered howner he (Option.some.inj (helement.symm.trans hrelement))
      have hstop : f.2.range.stop = s.attr.start := hstop
      have hdeep := h.depth_lt_of_stop_eq hs he hf hholds hstop
      have hf' := h.element f hf
      have htouches : f.2.range.touches s.attr.start = true := touches_iff.2 ⟨by omega, Nat.le_of_eq hstop.symm⟩
      rcases hfirst f hf htouches (Sites.isSome_ownLiteral?_iff.2 ⟨q, hq, hqelement, hliteral⟩) with rfl | htried
      · exact Nat.lt_irrefl _ hdeep
      · unfold TriedBefore at htried
        omega

/-- The start of a whole attribute leads to it if nothing is in the way. -/
theorem pointsAt_of_not_contests (h : sites.LaidOut t) (hs : s ∈ sites.sites) (hcontent : s.content = .object object)
    (hnot : ¬sites.Contests (.make t s.attr object .wholeAttribute)) :
    sites.PointsAt t s.attr.start (.make t s.attr object .wholeAttribute) := by
  obtain ⟨e, he, helement, ⟨hestart, hestop⟩, hdeepest⟩ := h.owner s hs
  have hattr := h.start_lt_stop hs
  have hnone : ∀ r ∈ sites.sites, r.locate? t s.attr.start = none := fun r hr =>
    Option.not_isSome_iff_eq_none.1 fun hsome =>
      hnot (.enclosed r hr ((h.isSome_locate?_start_iff hs hr).1 hsome))
  have hown := (h.ownLiteral?_iff hs hcontent helement).2 fun r hr hrelement hstart hliteral =>
    hnot (.preceded rfl r s hr hs rfl hrelement hstart hliteral)
  refine .element e hnone he (touches_iff.2 ⟨by omega, by omega⟩) hown fun f hf htouches hsome => ?_
  rw [or_iff_not_imp_left]
  intro hne
  rw [touches_iff] at htouches
  rcases h.clear s hs f hf with ⟨hfstart, hfstop⟩ | hapart | ⟨hfstart, hfstop⟩
  · -- An element around the whole attribute holds the one that it belongs to.
    have hshallow := hdeepest f hf ⟨hfstart, hfstop⟩
    rcases h.nested_of_ne he hf hne with hapart | ⟨-, hdeep⟩ | ⟨-, hdeep⟩
    · unfold Span.Apart at hapart
      omega
    · omega
    · exact Or.inl hdeep
  · unfold Span.Apart at hapart
    obtain ⟨q, hq, hqelement, hliteral⟩ := Sites.isSome_ownLiteral?_iff.1 hsome
    have hstop : f.2.range.stop = s.attr.start := by omega
    exact absurd (.adjoined rfl f hf hstop q hq hqelement hliteral) hnot
  · omega

/-- The start of a whole attribute leads to it if and only if nothing is in the way. -/
theorem pointsAt_attribute_iff (h : sites.LaidOut t) (hs : s ∈ sites.sites) (hcontent : s.content = .object object) :
    sites.PointsAt t s.attr.start (.make t s.attr object .wholeAttribute) ↔
      ¬sites.Contests (.make t s.attr object .wholeAttribute) :=
  ⟨h.not_contests_of_pointsAt hs hcontent, h.pointsAt_of_not_contests hs hcontent⟩

end Attribute

/-! ## Objects of an array -/

section Object

variable {s : Site} {objects : List Span} {y : Span}

/-- An array gives the object that starts at a cursor. -/
theorem locate?_object (h : sites.LaidOut t) (hs : s ∈ sites.sites) (hcontent : s.content = .array objects)
    (hy : y ∈ objects) : s.locate? t y.start = some (.target (.make t y y .arrayElement)) := by
  have hobjects : s.objects = objects := by rw [Site.objects, hcontent]
  have hspan := h.objects s hs y (hobjects ▸ hy)
  have hvalue : s.value.touches y.start = true := touches_iff.2 ⟨by omega, by omega⟩
  have hfind : objects.find? (·.touches y.start) = some y := by
    obtain ⟨before, after, rfl⟩ := List.append_of_mem hy
    refine List.find?_eq_some_iff_append.2 ⟨touches_iff.2 ⟨by omega, by omega⟩, before, after, rfl, fun x hx => ?_⟩
    have := (List.pairwise_append.1 (hobjects ▸ h.objectsApart s hs)).2.2 x hx y (by simp)
    have hnot : ¬x.touches y.start = true := by
      rw [touches_iff]
      omega
    simpa using hnot
  simp [Site.locate?, hvalue, hcontent, hfind]

/-- What lays claim to an object of an array starts before the array does. -/
theorem start_lt_of_claims (h : sites.LaidOut t) (hs : s ∈ sites.sites) (hcontent : s.content = .array objects)
    (hy : y ∈ objects) {r : Site} (hr : r ∈ sites.sites) (hclaims : r.Claims y) : r.attr.start < s.attr.start := by
  have hobjects : s.objects = objects := by rw [Site.objects, hcontent]
  have hspan := h.objects s hs y (hobjects ▸ hy)
  have hvalue := (h.value s hs).1
  obtain ⟨hstart, hstop⟩ := h.holds_of_claims hr hclaims
  unfold Span.Holds at hvalue
  obtain ⟨before, after, hsplit⟩ := List.append_of_mem hs
  rcases h.mem_split hsplit hr with ⟨-, hrs⟩ | rfl | ⟨-, hbehind | ⟨-, hinside⟩⟩
  · exact h.start_lt hr hrs
  · -- An object does not hold another one of its array.
    obtain ⟨x, hx, hholds⟩ : ∃ x ∈ objects, x.Holds y := by simpa [Site.Claims, hcontent] using hclaims
    have hx' := h.objects r hs x (hobjects ▸ hx)
    have hapart := hobjects ▸ h.objectsApart r hs
    unfold Span.Holds at hholds
    obtain ⟨before, after, rfl⟩ := List.append_of_mem hy
    obtain ⟨-, hafter, hbefore⟩ := List.pairwise_append.1 hapart
    rcases List.mem_append.1 hx with hx | hx
    · have := hbefore x hx y (by simp)
      omega
    · rcases List.mem_cons.1 hx with rfl | hx
      · omega
      · have := (List.pairwise_cons.1 hafter).1 x hx
        omega
  · omega
  · have := hinside y (hobjects ▸ hy)
    unfold Span.Holds at this
    omega

/-- The start of an object of an array leads to it if and only if nothing is in the way. -/
theorem pointsAt_object_iff (h : sites.LaidOut t) (hs : s ∈ sites.sites) (hcontent : s.content = .array objects)
    (hy : y ∈ objects) : sites.PointsAt t y.start (.make t y y .arrayElement) ↔
      ¬sites.Contests (.make t y y .arrayElement) := by
  have hobjects : s.objects = objects := by rw [Site.objects, hcontent]
  have hspan := h.objects s hs y (hobjects ▸ hy)
  have hvalue := (h.value s hs).1
  unfold Span.Holds at hvalue
  have hgives := h.locate?_object hs hcontent hy
  obtain ⟨before, after, hsplit⟩ := List.append_of_mem hs
  have hclaims : ∀ {r}, r ∈ sites.sites → r.StandsBefore s →
      ((r.locate? t y.start).isSome = true ↔ r.Claims y) := fun hr hrs =>
    h.isSome_locate?_iff hr hrs (by omega) (by omega) (by omega)
  constructor
  · intro hpoints hcontests
    cases hpoints with
    | element e hnone =>
      rw [hnone s hs] at hgives
      cases hgives
    | value before' s' after' hsplit' hbefore' hs'' =>
      have hs' : s' ∈ sites.sites := by simp [hsplit']
      -- What stands before the array gives nothing that starts where the object does.
      have hlate : ¬s'.attr.start < s.attr.start := fun hearly => by
        have := h.start_lt_of_locate? hs' ((h.mem_before_iff hsplit hs').2 hearly).2 (by omega) (by omega) (by omega)
          hs''
        exact absurd this (Nat.lt_irrefl _)
      cases hcontests with
      | enclosed r hr hr' =>
        have hearly := h.start_lt_of_claims hs hcontent hy hr hr'
        have hsome := (hclaims hr ((h.mem_before_iff hsplit hr).2 hearly).2).2 hr'
        rw [hbefore' r ((h.mem_before_iff hsplit' hr).2 (by omega)).1] at hsome
        cases hsome
      | preceded hkind => cases hkind
      | adjoined hkind => cases hkind
  · intro hnot
    refine .value before s after hsplit (fun r hr => Option.not_isSome_iff_eq_none.1 fun hsome => ?_) hgives
    have hr' : r ∈ sites.sites := by simp [hsplit, hr]
    have hordered := h.ordered
    rw [hsplit] at hordered
    have hrs : r.StandsBefore s := (List.pairwise_append.1 hordered).2.2 r hr s (by simp)
    exact hnot (.enclosed r hr' ((hclaims hr' hrs).1 hsome))

end Object

/-- **Where the parts of a script are laid out as nested ranges, the start of a literal leads to it if and only if
nothing is in the way.** -/
theorem findAt_start_iff (h : sites.LaidOut t) (htarget : target ∈ findAll sites t) :
    findAt sites t target.range.start = .target target ↔ ¬sites.Contests target := by
  obtain ⟨s, hs, htarget⟩ := List.mem_flatMap.1 (List.mem_filter.1 htarget).1
  rw [findAt_eq_target_iff]
  unfold Site.targets at htarget
  cases hcontent : s.content with
  | object object =>
    rw [hcontent] at htarget
    rw [List.mem_singleton.1 htarget]
    exact h.pointsAt_attribute_iff hs hcontent
  | array objects =>
    rw [hcontent] at htarget
    obtain ⟨y, hy, rfl⟩ := List.mem_map.1 htarget
    exact h.pointsAt_object_iff hs hcontent hy
  | member => simp [hcontent] at htarget
  | other => simp [hcontent] at htarget

/-- A literal starts at a character that ends no line. -/
theorem startsCharacter_of_mem_findAll (h : sites.LaidOut t) (htarget : target ∈ findAll sites t) :
    startsCharacter t target.range.start = true := by
  obtain ⟨s, hs, htarget⟩ := List.mem_flatMap.1 (List.mem_filter.1 htarget).1
  obtain ⟨hattr, hobjects⟩ := h.characters s hs
  unfold Site.targets at htarget
  unfold Site.objects at hobjects
  cases hcontent : s.content with
  | object object =>
    rw [hcontent] at htarget
    rw [List.mem_singleton.1 htarget]
    exact hattr
  | array objects =>
    rw [hcontent] at htarget hobjects
    obtain ⟨y, hy, rfl⟩ := List.mem_map.1 htarget
    exact hobjects y hy
  | member => simp [hcontent] at htarget
  | other => simp [hcontent] at htarget

end Sites.LaidOut

/-- The position of a character that ends no line leads back to its start. -/
theorem offsetAt_positionAt_of_startsCharacter {t : Text} {offset : Nat} (h : startsCharacter t offset = true) :
    offsetAt t (positionAt t offset) = offset := by
  unfold startsCharacter at h
  split at h
  · rename_i a c b hsplit
    obtain ⟨rfl, rfl⟩ := splitAt?_eq_some hsplit
    obtain ⟨hnewline, hreturn⟩ : c ≠ '\n' ∧ c ≠ '\r' := by simpa using h
    exact offsetAt_positionAt hnewline hreturn
  · cases h

end StyleHoist
