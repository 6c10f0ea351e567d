import Lox.Proofs.Usage.Survey

/-! Where the uses and the bodies of a program text stand.

Places tell scopes apart: a use that has the scope of a body around it stands in that very body.
-/

namespace Lox.Scoping

open Binding
open Grammar (SourceExpr SourceStmt)

-----
-- Scopes and places

/-- The scopes belong to places further out. -/
def Inner (place : List Nat) (frames : List Frame) : Prop :=
  ∀ frame ∈ frames, frame.place.length < place.length

/-- The scopes belong to places further out, or to the place itself. -/
def Level (place : List Nat) (frames : List Frame) : Prop :=
  ∀ frame ∈ frames, frame.place.length ≤ place.length

/-- Scopes further out are not further in. -/
theorem Inner.level {place : List Nat} {frames : List Frame} (inner : Inner place frames)
    : Level place frames :=
  fun frame member => Nat.le_of_lt (inner frame member)

/-- At a part of the place the scopes are further out. -/
theorem Level.part {place : List Nat} {frames : List Frame} (level : Level place frames)
    (part : Nat)
    : Inner (part :: place) frames :=
  fun frame member => Nat.lt_succ_of_le (level frame member)

/-- A scope that is opened at the place. -/
theorem Level.opened {place : List Nat} {frames : List Frame} (level : Level place frames)
    (kind : FrameKind)
    : Level place ({ kind := kind, place := place } :: frames) := by
  intro frame member
  rcases List.mem_cons.1 member with rfl | member
  · exact Nat.le_refl _
  · exact level frame member

/-- Scopes have been opened, all of them at the place or inside of it. -/
def Deeper (place : List Nat) (frames inner : List Frame) : Prop :=
  ∃ front, inner = front ++ frames ∧ ∀ frame ∈ front, place <:+ frame.place

namespace Deeper

variable {place place' : List Nat} {frames inner : List Frame}

/-- No scope opened is none opened elsewhere. -/
theorem refl (place : List Nat) (frames : List Frame) : Deeper place frames frames :=
  ⟨[], rfl, fun _ none => absurd none List.not_mem_nil⟩

/-- What is inside of a place is inside of the places around it. -/
theorem weaken (deeper : Deeper place frames inner) (inside : place' <:+ place)
    : Deeper place' frames inner := by
  obtain ⟨front, split, placed⟩ := deeper
  exact ⟨front, split, fun frame member => inside.trans (placed frame member)⟩

/-- A scope that is opened at the place is one of those. -/
theorem unframed {kind : FrameKind}
    (deeper : Deeper place ({ kind := kind, place := place } :: frames) inner)
    : Deeper place frames inner := by
  obtain ⟨front, rfl, placed⟩ := deeper
  refine ⟨front ++ [{ kind := kind, place := place }], by simp, fun other member => ?_⟩
  rcases List.mem_append.1 member with member | member
  · exact placed other member
  · obtain rfl := List.mem_singleton.1 member
    exact List.suffix_rfl

/-- A scope belongs to the place or was open before. -/
theorem mem (deeper : Deeper place frames inner) {frame : Frame} (member : frame ∈ inner)
    : place <:+ frame.place ∨ frame ∈ frames := by
  obtain ⟨front, rfl, placed⟩ := deeper
  exact (List.mem_append.1 member).imp_left (placed frame)

end Deeper

namespace Survey

/-- A use that has the scope of a body around it is one of the body. -/
def Owned (survey : Survey) : Prop :=
  ∀ entry ∈ survey.uses, ∀ body ∈ survey.bodies,
    body.frame ∈ entry.1.frames → entry ∈ body.survey.uses

/-- What a body uses is used. -/
def Complete (survey : Survey) : Prop :=
  ∀ body ∈ survey.bodies, ∀ entry ∈ body.survey.uses, entry ∈ survey.uses

/-- No body has its scope around a body that comes later, and no two bodies have the same scope. -/
def Ordered (survey : Survey) : Prop :=
  survey.bodies.Pairwise fun earlier later => earlier.frame ∉ later.start.frames

/-- All that the survey lists is at the place or inside of it. -/
structure Placed (survey : Survey) (place : List Nat) (frames : List Frame) : Prop where
  uses
    : ∀ entry ∈ survey.uses, place <:+ entry.1.place ∧ Deeper place frames entry.1.frames
  bodies
    : ∀ body ∈ survey.bodies,
        place <:+ body.site.place ∧ Inner body.site.place body.site.frames
  nested : ∀ body ∈ survey.bodies, Deeper place frames body.site.frames
  owned : survey.Owned
  complete : survey.Complete
  ordered : survey.Ordered

/-- All that the survey lists is inside of these parts of the place. -/
structure Among (survey : Survey) (place : List Nat) (frames : List Frame) (parts : List Nat)
    : Prop where
  uses
    : ∀ entry ∈ survey.uses, ∃ part ∈ parts,
        part :: place <:+ entry.1.place ∧ Deeper (part :: place) frames entry.1.frames
  bodies
    : ∀ body ∈ survey.bodies, ∃ part ∈ parts,
        part :: place <:+ body.site.place ∧ Inner body.site.place body.site.frames
  nested
    : ∀ body ∈ survey.bodies, ∃ part ∈ parts,
        part :: place <:+ body.site.place ∧ Deeper (part :: place) frames body.site.frames
  owned : survey.Owned
  complete : survey.Complete
  ordered : survey.Ordered

/-- A place is in one part only. -/
theorem part_unique {part part' : Nat} {place inner : List Nat} (front : part :: place <:+ inner)
    (back : part' :: place <:+ inner)
    : part = part' := by
  have same := List.suffix_of_suffix_length_le front back (Nat.le_refl _)
  exact (List.cons.inj (same.eq_of_length rfl)).1

variable {survey front back : Survey} {place : List Nat} {frames : List Frame}
  {parts parts' : List Nat}

/-- What is placed at a part is among that part. -/
theorem Placed.among {part : Nat} (placed : survey.Placed (part :: place) frames)
    : survey.Among place frames [part] :=
  {
    uses := fun entry member => ⟨part, List.mem_singleton_self part, placed.uses entry member⟩
    bodies := fun body member => ⟨part, List.mem_singleton_self part, placed.bodies body member⟩
    nested := fun body member =>
      ⟨part, List.mem_singleton_self part, (placed.bodies body member).1,
        placed.nested body member⟩
    owned := placed.owned
    complete := placed.complete
    ordered := placed.ordered
  }

/-- What is among parts of a place is at the place. -/
theorem Among.placed (among : survey.Among place frames parts) : survey.Placed place frames := by
  refine ⟨fun entry member => ?_, fun body member => ?_, fun body member => ?_, among.owned,
    among.complete, among.ordered⟩
  · obtain ⟨part, -, inside, deeper⟩ := among.uses entry member
    have outer := List.suffix_cons part place
    exact ⟨outer.trans inside, deeper.weaken outer⟩
  · obtain ⟨part, -, inside, inner⟩ := among.bodies body member
    exact ⟨(List.suffix_cons part place).trans inside, inner⟩
  · obtain ⟨part, -, -, deeper⟩ := among.nested body member
    exact deeper.weaken (List.suffix_cons part place)

/-- Where no use has the scope of a body of the other part around it, parts can be put together. -/
theorem Owned.append (owned : front.Owned) (owned' : back.Owned)
    (apart : ∀ entry ∈ front.uses, ∀ body ∈ back.bodies, body.frame ∉ entry.1.frames)
    (apart' : ∀ entry ∈ back.uses, ∀ body ∈ front.bodies, body.frame ∉ entry.1.frames)
    : (front ++ back).Owned := by
  intro entry member body member' around
  rcases List.mem_append.1 member with member | member <;>
    rcases List.mem_append.1 member' with member' | member'
  · exact owned entry member body member' around
  · exact absurd around (apart entry member body member')
  · exact absurd around (apart' entry member body member')
  · exact owned' entry member body member' around

/-- Two complete surveys are complete together. -/
theorem Complete.append (complete : front.Complete) (complete' : back.Complete)
    : (front ++ back).Complete := by
  intro body member entry member'
  rcases List.mem_append.1 member with member | member
  · exact List.mem_append_left _ (complete body member entry member')
  · exact List.mem_append_right _ (complete' body member entry member')

/-- Different parts have no scope in common. -/
theorem Among.apart (among : front.Among place frames parts)
    (among' : back.Among place frames parts') (level : Level place frames)
    (disjoint : ∀ part ∈ parts, part ∉ parts')
    : ∀ entry ∈ front.uses, ∀ body ∈ back.bodies, body.frame ∉ entry.1.frames := by
  intro entry member body member' around
  obtain ⟨part, listed, -, deeper⟩ := among.uses entry member
  obtain ⟨part', listed', inside, -⟩ := among'.bodies body member'
  rcases deeper.mem around with here | outer
  · rw [Body.frame_place] at here
    exact disjoint part listed (part_unique here inside ▸ listed')
  · have short := level _ outer
    have long := inside.length_le
    rw [Body.frame_place] at short
    rw [List.length_cons] at long
    omega

/-- Bodies of different parts have different scopes, and none is around another. -/
theorem Among.separate (among : front.Among place frames parts)
    (among' : back.Among place frames parts') (level : Level place frames)
    (disjoint : ∀ part ∈ parts, part ∉ parts')
    : ∀ body ∈ front.bodies, ∀ body' ∈ back.bodies, body.frame ∉ body'.start.frames := by
  intro body member body' member' around
  obtain ⟨part, listed, inside, -⟩ := among.bodies body member
  obtain ⟨part', listed', inside', deeper⟩ := among'.nested body' member'
  have elsewhere (there : part' :: place <:+ body.frame.place) : False := by
    rw [Body.frame_place] at there
    exact disjoint part listed (part_unique inside there ▸ listed')
  rw [Body.start_frames] at around
  rcases List.mem_cons.1 around with same | around
  · exact elsewhere (by rw [same, Body.frame_place]; exact inside')
  · rcases deeper.mem around with here | outer
    · exact elsewhere here
    · have short := level _ outer
      have long := inside.length_le
      rw [Body.frame_place] at short
      rw [List.length_cons] at long
      omega

/-- Surveys of different parts of a place are among both. -/
theorem Among.append (among : front.Among place frames parts)
    (among' : back.Among place frames parts') (level : Level place frames)
    (disjoint : ∀ part ∈ parts, part ∉ parts')
    : (front ++ back).Among place frames (parts ++ parts') := by
  have disjoint' : ∀ part ∈ parts', part ∉ parts :=
    fun part member member' => disjoint part member' member
  refine ⟨fun entry member => ?_, fun body member => ?_, fun body member => ?_,
    among.owned.append among'.owned (among.apart among' level disjoint)
      (among'.apart among level disjoint'),
    among.complete.append among'.complete,
    List.pairwise_append.2
      ⟨among.ordered, among'.ordered, among.separate among' level disjoint⟩⟩
  · rcases List.mem_append.1 member with member | member
    · obtain ⟨part, listed, rest⟩ := among.uses entry member
      exact ⟨part, List.mem_append_left _ listed, rest⟩
    · obtain ⟨part, listed, rest⟩ := among'.uses entry member
      exact ⟨part, List.mem_append_right _ listed, rest⟩
  · rcases List.mem_append.1 member with member | member
    · obtain ⟨part, listed, rest⟩ := among.bodies body member
      exact ⟨part, List.mem_append_left _ listed, rest⟩
    · obtain ⟨part, listed, rest⟩ := among'.bodies body member
      exact ⟨part, List.mem_append_right _ listed, rest⟩
  · rcases List.mem_append.1 member with member | member
    · obtain ⟨part, listed, rest⟩ := among.nested body member
      exact ⟨part, List.mem_append_left _ listed, rest⟩
    · obtain ⟨part, listed, rest⟩ := among'.nested body member
      exact ⟨part, List.mem_append_right _ listed, rest⟩

/-- Nothing is listed by the empty survey, wherever it is. -/
theorem Among.empty (place : List Nat) (frames : List Frame) (parts : List Nat)
    : Survey.empty.Among place frames parts := by
  refine ⟨fun _ none => ?_, fun _ none => ?_, fun _ none => ?_, fun _ none => ?_,
    fun _ none => ?_, List.Pairwise.nil⟩ <;>
    exact absurd none List.not_mem_nil

/-- Nothing is placed by the empty survey, wherever it is. -/
theorem Placed.empty (place : List Nat) (frames : List Frame)
    : Survey.empty.Placed place frames :=
  (Among.empty place frames []).placed

/-- Surveys in a row are placed if no use of the one stands in a body of the other, and one of them
has no bodies. -/
theorem Placed.append (placed : front.Placed place frames) (placed' : back.Placed place frames)
    (apart : ∀ entry ∈ front.uses, ∀ body ∈ back.bodies, body.frame ∉ entry.1.frames)
    (apart' : ∀ entry ∈ back.uses, ∀ body ∈ front.bodies, body.frame ∉ entry.1.frames)
    (single : front.bodies = [] ∨ back.bodies = [])
    : (front ++ back).Placed place frames := by
  refine ⟨fun entry member => ?_, fun body member => ?_, fun body member => ?_,
    placed.owned.append placed'.owned apart apart', placed.complete.append placed'.complete, ?_⟩
  · exact (List.mem_append.1 member).elim (placed.uses entry) (placed'.uses entry)
  · exact (List.mem_append.1 member).elim (placed.bodies body) (placed'.bodies body)
  · exact (List.mem_append.1 member).elim (placed.nested body) (placed'.nested body)
  · unfold Ordered
    rw [bodies_append]
    rcases single with none | none
    · rw [none, List.nil_append]
      exact placed'.ordered
    · rw [none, List.append_nil]
      exact placed.ordered

/-- A use is placed where it stands. -/
theorem Placed.use {site : Site} (use : Use) (here : site.place = place)
    (around : site.frames = frames)
    : (Survey.use site use).Placed place frames := by
  refine ⟨fun entry member => ?_, fun _ none => absurd none List.not_mem_nil,
    fun _ none => absurd none List.not_mem_nil, fun _ _ _ none => absurd none List.not_mem_nil,
    fun _ none => absurd none List.not_mem_nil, List.Pairwise.nil⟩
  obtain rfl := List.mem_singleton.1 member
  exact ⟨here ▸ List.suffix_rfl, around ▸ .refl _ _⟩

/-- The scope of a class at the place is no concern of the places around it. -/
theorem Placed.unframed {kind : FrameKind}
    (placed : survey.Placed place ({ kind := kind, place := place } :: frames))
    : survey.Placed place frames :=
  {
    uses := fun entry member => (placed.uses entry member).imp_right Deeper.unframed
    bodies := placed.bodies
    nested := fun body member => (placed.nested body member).unframed
    owned := placed.owned
    complete := placed.complete
    ordered := placed.ordered
  }

/-- The uses among the statements of a body are its own. -/
theorem Placed.body (body : Body) (inner : Inner body.site.place body.site.frames)
    (among : body.survey.Among body.start.place body.start.frames parts)
    : (body.survey ++ .body body).Placed body.site.place body.site.frames := by
  have here : body.frame = { kind := body.frame.kind, place := body.site.place } := by
    cases body <;> rfl
  rw [Body.start_place, Body.start_frames, here] at among
  have placed := among.placed.unframed
  refine ⟨fun entry member => ?_, fun other member => ?_, fun other member => ?_,
    fun entry member other member' around => ?_, fun other member entry member' => ?_,
    List.pairwise_append.2 ⟨placed.ordered, List.pairwise_singleton _ _, ?_⟩⟩
  · exact placed.uses entry (by simpa [Survey.body] using member)
  · rcases List.mem_append.1 member with member | member
    · exact placed.bodies other member
    · obtain rfl := List.mem_singleton.1 member
      exact ⟨List.suffix_rfl, inner⟩
  · rcases List.mem_append.1 member with member | member
    · exact placed.nested other member
    · obtain rfl := List.mem_singleton.1 member
      exact .refl _ _
  · have listed : entry ∈ body.survey.uses := by simpa [Survey.body] using member
    rcases List.mem_append.1 member' with member' | member'
    · exact placed.owned entry listed other member' around
    · obtain rfl := List.mem_singleton.1 member'
      exact listed
  · rcases List.mem_append.1 member with member | member
    · exact List.mem_append_left _ (placed.complete other member entry member')
    · obtain rfl := List.mem_singleton.1 member
      exact List.mem_append_left _ member'
  · -- What is inside of the body is further in than all scopes that are open in it.
    intro earlier member later member' around
    obtain rfl := List.mem_singleton.1 member'
    obtain ⟨part, -, inside, -⟩ := among.bodies earlier member
    have long := inside.length_le
    have short := inner.level.opened later.frame.kind earlier.frame
      (by rwa [Body.start_frames, here] at around)
    rw [Body.frame_place] at short
    rw [List.length_cons] at long
    omega

/-- No body at the place or inside of it has its scope around the place. -/
theorem Placed.outside (placed : survey.Placed place frames) (inner : Inner place frames)
    : ∀ body ∈ survey.bodies, body.frame ∉ frames := by
  intro body member around
  have short := inner _ around
  have long := (placed.bodies body member).1.length_le
  rw [Body.frame_place] at short
  omega

end Survey

-----
-- Whole trees

mutual
/-- What an expression lists is at its place, by induction on the tree. -/
theorem placed_expr
    : ∀ (expr : SourceExpr) (site : Site),
        Inner site.place site.frames → (surveyExpr site expr).Placed site.place site.frames
  | .literal _, _, _ => .empty _ _
  | .grouping inner, site, around =>
      (placed_expr inner (site.child 0) (around.level.part 0)).among.placed
  | .unary _ operand, site, around =>
      (placed_expr operand (site.child 0) (around.level.part 0)).among.placed
  | .binary left _ right, site, around =>
      ((placed_expr left (site.child 0) (around.level.part 0)).among.append
        (placed_expr right ((site.after (bindExpr left)).child 1) (around.level.part 1)).among
        around.level (by decide)).placed
  | .logical left _ right, site, around =>
      ((placed_expr left (site.child 0) (around.level.part 0)).among.append
        (placed_expr right ((site.after (bindExpr left)).child 1) (around.level.part 1)).among
        around.level (by decide)).placed
  | .conditional condition thenCase elseCase, site, around =>
      (((placed_expr condition (site.child 0) (around.level.part 0)).among.append
        (placed_expr thenCase _ (around.level.part 1)).among around.level (by decide)).append
          (placed_expr elseCase _ (around.level.part 2)).among around.level (by decide)).placed
  | .variable _, _, _ => .use _ rfl rfl
  | .assign _ value, site, around => by
      have inside := (placed_expr value (site.child 0) (around.level.part 0)).among.placed
      refine inside.append (.use _ rfl rfl) (fun _ _ _ none => absurd none List.not_mem_nil) ?_
        (.inr rfl)
      intro entry member
      obtain rfl := List.mem_singleton.1 member
      exact inside.outside around
  | .call callee _ arguments, site, around =>
      ((placed_expr callee (site.child 0) (around.level.part 0)).among.append
        (placed_exprs arguments ((site.after (bindExpr callee)).child 1)
          (around.level.part 1)).among
        around.level (by decide)).placed
  | .get object _, site, around =>
      (placed_expr object (site.child 0) (around.level.part 0)).among.placed
  | .set object _ value, site, around =>
      ((placed_expr value (site.child 1) (around.level.part 1)).among.append
        (placed_expr object ((site.after (bindExpr value)).child 0) (around.level.part 0)).among
        around.level (by decide)).placed
  | .this _, _, _ => .use _ rfl rfl
  | .super _ _, _, _ => .use _ rfl rfl
  | .function function, site, around =>
      (placed_function function (site.child 0) (around.level.part 0)).among.placed

/-- What expressions in a row list is at their place. -/
theorem placed_exprs
    : ∀ (exprs : List SourceExpr) (site : Site),
        Inner site.place site.frames → (surveyExprs site exprs).Placed site.place site.frames
  | [], _, _ => .empty _ _
  | first :: rest, site, around =>
      ((placed_expr first (site.child 0) (around.level.part 0)).among.append
        (placed_exprs rest ((site.after (bindExpr first)).child 1) (around.level.part 1)).among
        around.level (by decide)).placed

/-- What an optional expression lists is at its place. -/
theorem placed_optional
    : ∀ (value : Option SourceExpr) (site : Site),
        Inner site.place site.frames → (surveyOptional site value).Placed site.place site.frames
  | none, _, _ => .empty _ _
  | some value, site, around =>
      (placed_expr value (site.child 0) (around.level.part 0)).among.placed

/-- What a statement lists is at its place, by induction on the tree. -/
theorem placed_stmt
    : ∀ (stmt : SourceStmt) (site : Site),
        Inner site.place site.frames → (surveyStmt site stmt).Placed site.place site.frames
  | .expression value, site, around =>
      (placed_expr value (site.child 0) (around.level.part 0)).among.placed
  | .print value, site, around =>
      (placed_expr value (site.child 0) (around.level.part 0)).among.placed
  | .printLine value, site, around => placed_optional value site around
  | .variable name initial, site, around => placed_optional initial (site.declaring name) around
  | .block statements, site, around =>
      .body (.block site statements) around
        (among_stmts statements (site.opened .block) (around.level.opened .block))
  | .branch condition thenBranch elseBranch, site, around =>
      (((placed_expr condition (site.child 0) (around.level.part 0)).among.append
        (placed_stmt thenBranch _ (around.level.part 1)).among around.level (by decide)).append
          (placed_else elseBranch _ (around.level.part 2)).among around.level (by decide)).placed
  | .loop condition body, site, around =>
      ((placed_expr condition (site.child 0) (around.level.part 0)).among.append
        (placed_stmt body _ (around.level.part 1)).among around.level (by decide)).placed
  | .breakLoop _, _, _ => .empty _ _
  | .returnValue keyword value, site, around =>
      placed_optional value (site.after (checkReturn keyword)) around
  | .function name function, site, around =>
      (placed_function function ((site.introducing name).child 0)
        (around.level.part 0)).among.placed
  | .class name none methods, site, around =>
      (Survey.Placed.empty _ _).append
        (placed_methods methods (site.amongMethods name none)
          (around.level.opened .receiver)).unframed
        (fun _ none => absurd none List.not_mem_nil)
        (fun _ _ _ none => absurd none List.not_mem_nil) (.inl rfl)
  | .class name (some superclass) methods, site, around => by
      have inside :=
        (placed_methods methods (site.amongMethods name (some superclass))
          ((around.level.opened .superclass).opened .receiver)).unframed.unframed
      refine (Survey.Placed.use _ rfl rfl).append inside ?_
        (fun _ _ _ none => absurd none List.not_mem_nil) (.inl rfl)
      intro entry member
      obtain rfl := List.mem_singleton.1 member
      exact inside.outside around

/-- What statements in a row list is among the two parts of their place, the first one and the rest.
-/
theorem among_stmts
    : ∀ (stmts : List SourceStmt) (site : Site),
        Level site.place site.frames
        → (surveyStmts site stmts).Among site.place site.frames [0, 1]
  | [], site, _ => .empty site.place site.frames [0, 1]
  | first :: rest, site, around =>
      (placed_stmt first (site.child 0) (around.part 0)).among.append
        (among_stmts rest ((site.after (bindStmt first)).child 1)
          (around.part 1).level).placed.among
        around (by decide)

/-- What a branch that may be missing lists is at its place. -/
theorem placed_else
    : ∀ (branch : Option SourceStmt) (site : Site),
        Inner site.place site.frames → (surveyElse site branch).Placed site.place site.frames
  | none, _, _ => .empty _ _
  | some branch, site, around => placed_stmt branch site around

/-- What a function lists is at its place. -/
theorem placed_function
    : ∀ (function : Lambda Unit) (site : Site),
        Inner site.place site.frames
        → (surveyFunction site function).Placed site.place site.frames
  | .mk parameters body, site, around =>
      .body (.function site (.mk parameters body)) around
        (among_stmts body (site.inside (.mk parameters body)) (around.level.opened .function))

/-- What methods list is at their place. -/
theorem placed_methods
    : ∀ (methods : List (Method Unit)) (site : Site),
        Level site.place site.frames
        → (surveyMethods site methods).Placed site.place site.frames
  | [], _, _ => .empty _ _
  | .mk _ function :: rest, site, around =>
      ((placed_function function (site.child 0) (around.part 0)).among.append
        (placed_methods rest ((site.after (bindFunction function)).child 1)
          (around.part 1).level).among
        around (by decide)).placed
end

-----
-- Scopes of bodies

namespace Body

variable {body : Body}

/-- A body starts in scopes of its own place or further out. -/
theorem level (inner : Inner body.site.place body.site.frames)
    : Level body.start.place body.start.frames := by
  rw [start_place, start_frames]
  intro frame member
  rcases List.mem_cons.1 member with rfl | member
  · exact Nat.le_of_eq (congrArg _ body.frame_place)
  · exact inner.level frame member

/-- The scope of a body is around its uses only once. -/
theorem depth (inner : Inner body.site.place body.site.frames) {entry : Site × Use}
    (member : entry ∈ body.survey.uses) {distance : Nat}
    (here : entry.1.frames[distance]? = some body.frame)
    : entry.1.frames.length = distance + body.start.frames.length := by
  obtain ⟨part, -, -, front, split, deeper⟩ :=
    (among_stmts body.statements body.start (level inner)).uses entry member
  rw [start_frames] at split ⊢
  rw [split] at here ⊢
  rcases Nat.lt_or_ge distance front.length with less | beyond
  · rw [List.getElem?_append_left less] at here
    have long := (deeper _ (List.mem_of_getElem? here)).length_le
    rw [frame_place, start_place, List.length_cons] at long
    omega
  · rw [List.getElem?_append_right beyond] at here
    cases index : distance - front.length with
    | zero =>
        rw [List.length_append]
        omega
    | succ index' =>
        rw [index, List.getElem?_cons_succ] at here
        have short := inner _ (List.mem_of_getElem? here)
        rw [frame_place] at short
        omega

end Body

end Lox.Scoping
