import SelectAlgebra.Proofs.Expr.Unambiguous

/-!
# The indented form tells the expression

In the indented form every node of an expression has a line: the operators, the relation or the
product at the bottom, the tables of a product and the right tables of the joins.  A node is found
by the positions of the operands that lead to it, and its line stands two spaces in for each of
them.  The line shows what node it belongs to, so the indented form tells what the one-line form
tells.

Main results:

- Theorem `Expr.lines_eq_cons`: the lines of an expression are its own line and, one level further
  in, the lines of its operands.
- Theorem `Expr.treeLines_inj`: the lines of a plain expression tell it.
- Theorem `Expr.tree_layout`: where the lines of an expression stand, and that two expressions have
  one indented form exactly when they have one form on one line.
-/

namespace SelectAlgebra

/-! ## Expressions on lines of their own -/

/-- A name of a table that stands on a line of its own, and that is not taken for an operator or a
product there. -/
def IsLineName (name : String) : Prop :=
  (name ≠ "" ∧ name ≠ Symbol.product.text) ∧
    ∀ c ∈ name.toList, Text.isBlank c = false ∧ c ≠ '[' ∧ c ≠ ']'

/-- The entries of the operator have no line end.  The condition of a join may have one, since it
is written with its blanks collapsed. -/
def Layer.Lined : Layer → Prop
  | join .. => True
  | select entries | group entries | project entries => ∀ x ∈ entries, '\n' ∉ x.toList
  | sort keys => ∀ k ∈ keys, '\n' ∉ k.column.toList

/-- An expression whose parts each stand on one line. -/
structure Expr.Lined (e : Expr) : Prop where
  tables : ∀ name ∈ e.tables, IsLineName name
  layers : ∀ l ∈ e.layers, l.Lined

instance (name : String) : Decidable (IsLineName name) :=
  inferInstanceAs (Decidable (_ ∧ _))

instance : (l : Layer) → Decidable l.Lined
  | .join .. => inferInstanceAs (Decidable True)
  | .select entries | .group entries | .project entries =>
    inferInstanceAs (Decidable (∀ x ∈ entries, '\n' ∉ x.toList))
  | .sort keys => inferInstanceAs (Decidable (∀ k ∈ keys, '\n' ∉ k.column.toList))

instance (e : Expr) : Decidable e.Lined :=
  decidable_of_iff ((∀ name ∈ e.tables, IsLineName name) ∧ ∀ l ∈ e.layers, l.Lined)
    ⟨fun h => ⟨h.1, h.2⟩, fun h => ⟨h.tables, h.layers⟩⟩

/-- The subscript of an operator without line feeds has none. -/
theorem Layer.Lined.not_mem_subscript {l : Layer} (h : l.Lined) : '\n' ∉ l.subscript.toList := by
  intro hmem
  rcases mem_subscript hmem with hmark | ⟨x, hx, hc, hjoin⟩
  · exact absurd hmark (by decide)
  · cases l with
    | join kind condition right => exact absurd (hjoin rfl) (by decide)
    | select entries | group entries | project entries => exact h x hx hc
    | sort keys =>
      rcases List.mem_map.1 hx with ⟨k, hk, rfl⟩
      exact h k hk hc

/-- The header of an operator without line feeds has none. -/
theorem Layer.Lined.not_mem_header {l : Layer} (h : l.Lined) : '\n' ∉ l.header.toList := by
  have hglyph : '\n' ≠ l.symbol.glyph := by
    intro heq
    exact absurd l.symbol.isNameChar_glyph (by rw [← heq]; decide)
  simp [toList_header, hglyph, h.not_mem_subscript]

namespace Expr

variable {e e' : Expr} {l l' : Layer}

/-- An expression without line feeds has none in any of its parts. -/
theorem Lined.above (h : (l.above e).Lined) :
    l.Lined ∧ e.Lined ∧ ∀ right ∈ l.right?, IsLineName right := by
  obtain ⟨hlayer, htables, hlayers, hright⟩ := forall_mem_above h.tables h.layers
  exact ⟨hlayer, ⟨htables, hlayers⟩, hright⟩

/-- A table whose name fits on a line is an expression without line feeds. -/
theorem lined_relation {name : String} (h : IsLineName name) : (relation name).Lined :=
  ⟨by simpa [tables] using h, by simp [layers]⟩

/-! ## Nodes -/

/-- The operands of the outermost node, in order. -/
def operands : Expr → List Expr
  | relation _ => []
  | product tables => tables.map relation
  | join _ _ left right => [left, relation right]
  | select _ input | group _ input | project _ input | sort _ input => [input]

/-- The node that is reached from the root by going to the operand at each position in turn. -/
def node? : List Nat → Expr → Option Expr
  | [], e => some e
  | i :: path, e => e.operands[i]?.bind (node? path)

/-- What the outermost node writes. -/
def label : Expr → String
  | relation name => name
  | product _ => Symbol.product.text
  | e => e.header

/-- The number of joins in an expression. -/
def joinCount (e : Expr) : Nat :=
  e.layers.countP fun l => l.right?.isSome

/-- The number of nodes of a relation or a product. -/
def baseNodes : Expr → Nat
  | product tables => 1 + tables.length
  | _ => 1

/-- The lines of the indented form, without their line ends. -/
def lines (e : Expr) : List (List Char) :=
  (e.tree.toList.splitOn '\n').dropLast

/-- A line that stands a number of levels further in. -/
def indent (levels : Nat) (line : List Char) : List Char :=
  List.replicate (2 * levels) ' ' ++ line

/-- Where the lines of the indented form stand. -/
structure Layout (e : Expr) : Prop where
  /-- Every line has its line end, and there is nothing else. -/
  ended : e.tree.toList = e.lines.flatMap fun line => line ++ ['\n']
  /-- There is a line for every node. -/
  count : e.lines.length = e.depth + e.joinCount + e.bottom.baseNodes
  /-- The lines of a node are its own, which does not start with a space, and behind it the lines
  of its operands in order, one level further in.  All of them stand in the form as far in as the
  node is away from the root. -/
  node : ∀ path s, node? path e = some s →
    (∃ c cs, s.label.toList = c :: cs ∧ c ≠ ' ') ∧
    s.lines = s.label.toList :: (s.operands.flatMap lines).map (indent 1) ∧
    ∃ before after, e.lines = before ++ s.lines.map (indent path.length) ++ after
  /-- The right table of a join stands behind all lines of its left operand, as far in as the left
  operand itself. -/
  join : ∀ path kind condition left right, node? path e = some (.join kind condition left right) →
    ∃ below before after, left.lines = left.label.toList :: below ∧
      e.lines = before ++
        indent path.length (Expr.join kind condition left right).header.toList ::
          indent (path.length + 1) left.label.toList ::
            (below.map (indent (path.length + 1)) ++
              indent (path.length + 1) right.toList :: after)
  /-- The tables of a product stand behind its glyph in order, one level further in. -/
  product : ∀ path tables, node? path e = some (.product tables) →
    ∃ before after, e.lines = before ++ indent path.length Symbol.product.text.toList ::
      tables.map (fun table => indent (path.length + 1) table.toList) ++ after

@[simp]
theorem map_indent_zero (lines : List (List Char)) : lines.map (indent 0) = lines :=
  List.map_id lines

/-- Indentations add up. -/
@[simp]
theorem indent_indent (m n : Nat) (line : List Char) :
    indent m (indent n line) = indent (m + n) line := by
  rw [indent, indent, indent, ← List.append_assoc, List.replicate_append_replicate, Nat.mul_add]

theorem map_indent_indent (m n : Nat) (lines : List (List Char)) :
    (lines.map (indent n)).map (indent m) = lines.map (indent (m + n)) := by
  simp

@[simp]
theorem operands_above (l : Layer) (e : Expr) :
    (l.above e).operands = e :: l.right?.toList.map relation := by
  cases l <;> rfl

@[simp]
theorem label_above (l : Layer) (e : Expr) : (l.above e).label = l.header := by
  rw [← header_above l e]
  cases l <;> rfl

theorem joinCount_above (l : Layer) (e : Expr) :
    (l.above e).joinCount = e.joinCount + l.right?.toList.length := by
  rw [joinCount, layers_above, List.countP_cons, ← joinCount]
  cases l.right? <;> rfl

/-- The operands of an expression without line feeds have none. -/
theorem Lined.operands (h : e.Lined) : ∀ c ∈ e.operands, c.Lined := by
  cases e using layerInduction with
  | relation name => simp [Expr.operands]
  | product tables =>
    intro c hc
    rcases List.mem_map.1 hc with ⟨table, htable, rfl⟩
    exact lined_relation (h.tables table htable)
  | above l e _ =>
    obtain ⟨-, he, hright⟩ := h.above
    intro c hc
    rw [operands_above, List.mem_cons, List.mem_map] at hc
    rcases hc with rfl | ⟨right, hmem, rfl⟩
    · exact he
    · exact lined_relation (hright right (by simpa using hmem))

/-- The nodes of an expression without line feeds have none. -/
theorem Lined.node {path : List Nat} {s : Expr} (h : e.Lined) (hs : node? path e = some s) :
    s.Lined := by
  induction path generalizing e with
  | nil =>
    obtain rfl := Option.some.inj hs
    exact h
  | cons i path ih =>
    rcases Option.bind_eq_some_iff.1 hs with ⟨c, hc, hs⟩
    exact ih (h.operands c (List.mem_of_getElem? hc)) hs

/-- A line shows by its first character where it starts. -/
theorem Lined.label_cons (h : e.Lined) :
    ∃ c cs, e.label.toList = c :: cs ∧ Text.isBlank c = false := by
  cases e using layerInduction with
  | relation name =>
    have hname := h.tables name (by simp [Expr.tables])
    rcases List.exists_cons_of_ne_nil (by simpa using hname.1.1 : name.toList ≠ []) with
      ⟨c, cs, hcs⟩
    exact ⟨c, cs, hcs, (hname.2 c (by simp [hcs])).1⟩
  | product tables => exact ⟨'×', [], by simp [label, Symbol.text, Symbol.glyph], by decide⟩
  | above l e _ =>
    have hglyph := l.symbol.isNameChar_glyph
    rw [isNameChar, Bool.and_eq_true] at hglyph
    refine ⟨l.symbol.glyph, '[' :: l.subscript.toList ++ [']'], ?_, by simpa using hglyph.1⟩
    simp [Layer.toList_header]

/-- The label of an expression without line feeds has none. -/
theorem Lined.not_mem_label (h : e.Lined) : '\n' ∉ e.label.toList := by
  cases e using layerInduction with
  | relation name =>
    intro hmem
    exact absurd ((h.tables name (by simp [Expr.tables])).2 _ hmem).1 (by decide)
  | product tables => simp [label, Symbol.text, Symbol.glyph]
  | above l e _ =>
    rw [label_above]
    exact h.above.1.not_mem_header

/-! ## The lines of the indented form -/

/-- An expression has its own line and, one level further in, the lines of its operands. -/
theorem treeLines_eq_cons (level : Nat) (e : Expr) :
    e.treeLines level = ⟨level, e.label⟩ :: e.operands.flatMap (treeLines (level + 1)) := by
  cases e using layerInduction with
  | relation name => rfl
  | product tables => simp [treeLines, operands, label, List.flatMap_map, ← List.map_eq_flatMap]
  | above l e _ =>
    rw [treeLines_above, operands_above, label_above, List.flatMap_cons]
    cases l.right? <;> simp [treeLines]

/-- The lines of an expression further in are its lines, each further in. -/
theorem treeLines_add (level k : Nat) (e : Expr) :
    e.treeLines (level + k) = (e.treeLines level).map fun l => ⟨l.level + k, l.text⟩ := by
  induction e using layerInduction generalizing level with
  | relation name => rfl
  | product tables => simp [treeLines, Nat.add_right_comm]
  | above l e ih =>
    rw [treeLines_above, treeLines_above, Nat.add_right_comm level k 1, ih]
    simp [Function.comp_def]

/-- A tree has a line for every operator, for every join and for the base. -/
theorem length_treeLines (level : Nat) (e : Expr) :
    (e.treeLines level).length = e.depth + e.joinCount + e.bottom.baseNodes := by
  induction e using layerInduction generalizing level with
  | relation name => rfl
  | product tables => simp [treeLines, depth, joinCount, layers, bottom, baseNodes, Nat.add_comm]
  | above l e ih =>
    rw [treeLines_above, List.length_cons, List.length_append, ih, List.length_map, depth_above,
      joinCount_above, bottom_above]
    omega

/-- What is written in the lines of an expression is written by its nodes. -/
theorem Lined.text_of_mem (h : e.Lined) {level : Nat} {t : TreeLine} (ht : t ∈ e.treeLines level) :
    '\n' ∉ t.text.toList ∧ ∃ c cs, t.text.toList = c :: cs ∧ Text.isBlank c = false := by
  induction e using layerInduction generalizing level with
  | relation name =>
    obtain rfl := List.mem_singleton.1 ht
    exact ⟨h.not_mem_label, h.label_cons⟩
  | product tables =>
    rcases List.mem_cons.1 ht with rfl | ht
    · exact ⟨h.not_mem_label, h.label_cons⟩
    · rcases List.mem_map.1 ht with ⟨table, htable, rfl⟩
      have htable := lined_relation (h.tables table htable)
      exact ⟨htable.not_mem_label, htable.label_cons⟩
  | above l e ih =>
    obtain ⟨-, he, hright⟩ := h.above
    rw [treeLines_above, List.mem_cons, List.mem_append, List.mem_map] at ht
    rcases ht with rfl | ht | ⟨right, hmem, rfl⟩
    · rw [← label_above l e]
      exact ⟨h.not_mem_label, h.label_cons⟩
    · exact ih he ht
    · have hright := lined_relation (hright right (by simpa using hmem))
      exact ⟨hright.not_mem_label, hright.label_cons⟩

/-- Lines that were put one behind the other are found again. -/
theorem splitOn_lines {lines : List (List Char)} (h : ∀ line ∈ lines, '\n' ∉ line) :
    (lines.flatMap fun line => line ++ ['\n']).splitOn '\n' = lines ++ [[]] := by
  induction lines with
  | nil => rfl
  | cons line lines ih =>
    have hline : ∀ c ∈ line, (c == '\n') = false := by
      intro c hc
      rw [beq_eq_false_iff_ne]
      rintro rfl
      exact h line (by simp) hc
    have hrest := ih fun line hmem => h line (List.mem_cons_of_mem _ hmem)
    rw [List.flatMap_cons, List.append_assoc, List.singleton_append, List.splitOn,
      List.splitOnP_append_cons_of_forall_mem hline '\n' rfl, ← List.splitOn, hrest]
    rfl

/-- A tree is its lines, each with a line feed behind it. -/
theorem toList_tree (e : Expr) :
    e.tree.toList =
      ((e.treeLines 0).map fun t => t.render.toList).flatMap fun line => line ++ ['\n'] := by
  simp [tree, String.toList_join, List.flatMap_map]

/-- A line of a tree is its text behind its indentation. -/
theorem TreeLine.toList_render (t : TreeLine) : t.render.toList = indent t.level t.text.toList := by
  simp [render, indent]

/-- The indented form is split into its lines again. -/
theorem Lined.lines_eq (h : e.Lined) : e.lines = (e.treeLines 0).map fun t => t.render.toList := by
  have hline : ∀ line ∈ (e.treeLines 0).map fun t => t.render.toList, '\n' ∉ line := by
    intro line hline
    rcases List.mem_map.1 hline with ⟨t, ht, rfl⟩
    simp [TreeLine.toList_render, indent, (h.text_of_mem ht).1]
  rw [lines, toList_tree, splitOn_lines hline, List.dropLast_concat]

/-- Lines that are indented further are the lines of the same tree further in. -/
theorem Lined.map_indent_lines (h : e.Lined) (levels : Nat) :
    e.lines.map (indent levels) = (e.treeLines levels).map fun t => t.render.toList := by
  have hadd := treeLines_add 0 levels e
  rw [Nat.zero_add] at hadd
  rw [h.lines_eq, hadd, List.map_map, List.map_map]
  refine List.map_congr_left fun t _ => ?_
  simp [TreeLine.toList_render, Nat.add_comm]

/-- The lines of an expression are its own line and, one level further in, the lines of its
operands. -/
theorem Lined.lines_eq_cons (h : e.Lined) :
    e.lines = e.label.toList :: (e.operands.flatMap lines).map (indent 1) := by
  have hoperands : (e.operands.flatMap lines).map (indent 1) =
      (e.operands.flatMap (treeLines 1)).map fun t => t.render.toList := by
    rw [List.map_flatMap, List.map_flatMap, List.flatMap_def, List.flatMap_def]
    exact congrArg List.flatten
      (List.map_congr_left fun c hc => (h.operands c hc).map_indent_lines 1)
  rw [h.lines_eq, treeLines_eq_cons, List.map_cons, hoperands, TreeLine.toList_render]
  rfl

/-- The lines of a node stand among the lines of the expression, as far in as the node is away from
the root. -/
theorem Lined.lines_node {path : List Nat} {s : Expr} (h : e.Lined) (hs : node? path e = some s) :
    ∃ before after, e.lines = before ++ s.lines.map (indent path.length) ++ after := by
  induction path generalizing e with
  | nil =>
    obtain rfl := Option.some.inj hs
    exact ⟨[], [], by simp⟩
  | cons i path ih =>
    rcases Option.bind_eq_some_iff.1 hs with ⟨c, hc, hs⟩
    have hmem := List.mem_of_getElem? hc
    rcases ih (h.operands c hmem) hs with ⟨before, after, hlines⟩
    rcases List.append_of_mem hmem with ⟨front, back, hsplit⟩
    refine ⟨e.label.toList :: ((front.flatMap lines ++ before).map (indent 1)),
      (after ++ back.flatMap lines).map (indent 1), ?_⟩
    rw [h.lines_eq_cons, hsplit, List.flatMap_append, List.flatMap_cons, hlines, List.length_cons,
      Nat.add_comm path.length, ← map_indent_indent]
    simp

/-- The line of a node and the lines of its operands, among the lines of the expression. -/
theorem Lined.lines_node_cons {path : List Nat} {s : Expr} (h : e.Lined)
    (hs : node? path e = some s) :
    ∃ before after, e.lines = before ++ indent path.length s.label.toList ::
      (s.operands.flatMap lines).map (indent (path.length + 1)) ++ after := by
  rcases h.lines_node hs with ⟨before, after, hlines⟩
  refine ⟨before, after, ?_⟩
  rw [hlines, (h.node hs).lines_eq_cons, List.map_cons, map_indent_indent]

/-- A table is a tree of one line. -/
theorem lines_relation {name : String} (h : IsLineName name) :
    (relation name).lines = [name.toList] :=
  (lined_relation h).lines_eq_cons

/-- The lines of an expression stand as its nodes do. -/
theorem Lined.layout (h : e.Lined) : e.Layout where
  ended := by
    rw [toList_tree, h.lines_eq]
  count := by
    rw [h.lines_eq, List.length_map, length_treeLines]
  node path s hs := by
    rcases (h.node hs).label_cons with ⟨c, cs, hlabel, hc⟩
    refine ⟨⟨c, cs, hlabel, ?_⟩, (h.node hs).lines_eq_cons, h.lines_node hs⟩
    rintro rfl
    exact absurd hc (by decide)
  join path kind condition left right hs := by
    have hnode := h.node hs
    have hleft : left.Lined := hnode.operands left (by simp [Expr.operands])
    have hright : IsLineName right := hnode.tables right (by simp [Expr.tables])
    rcases h.lines_node_cons hs with ⟨before, after, hlines⟩
    refine ⟨_, before, after, hleft.lines_eq_cons, ?_⟩
    rw [hlines, Expr.operands, List.flatMap_cons, List.flatMap_singleton, lines_relation hright,
      hleft.lines_eq_cons]
    simp [label]
  product path tables hs := by
    have htable : ∀ table ∈ tables, (relation table).lines = [table.toList] :=
      fun table htable => lines_relation ((h.node hs).tables table htable)
    have htables : tables.flatMap (fun table => (relation table).lines) =
        tables.map String.toList := by
      rw [List.flatMap_def, List.map_congr_left htable, ← List.flatMap_def, ← List.map_eq_flatMap]
    rcases h.lines_node_cons hs with ⟨before, after, hlines⟩
    refine ⟨before, after, ?_⟩
    rw [hlines, Expr.operands, List.flatMap_map, htables, List.map_map]
    rfl

/-! ## Telling an expression by its lines -/

/-- A line of the indented form, read from the spaces in front of it. -/
def TreeLine.ofLine (line : List Char) : TreeLine :=
  ⟨(line.takeWhile (· == ' ')).length / 2, String.ofList (line.dropWhile (· == ' '))⟩

/-- The level and the text of a line of a tree are read back from it. -/
theorem TreeLine.ofLine_render {t : TreeLine} {c : Char} {cs : List Char}
    (h : t.text.toList = c :: cs) (hc : Text.isBlank c = false) : ofLine t.render.toList = t := by
  have hspaces : ∀ d ∈ List.replicate (2 * t.level) ' ', (d == ' ') = true := by simp
  have hstop : ∀ d ∈ t.text.toList.head?, (d == ' ') = false := by
    rw [h]
    rintro d hd
    obtain rfl := Option.some.inj hd
    rw [beq_eq_false_iff_ne]
    rintro rfl
    exact absurd hc (by decide)
  obtain ⟨hlevel, htext⟩ := List.takeWhile_dropWhile_iff.2 ⟨rfl, hspaces, hstop⟩
  rw [toList_render, indent, ofLine, hlevel, htext, List.length_replicate, String.ofList_toList]
  simp

/-- The lines of an expression are read back from the indented form. -/
theorem Lined.map_ofLine_lines (h : e.Lined) : e.lines.map TreeLine.ofLine = e.treeLines 0 := by
  rw [h.lines_eq, List.map_map]
  refine (List.map_congr_left fun t ht => ?_).trans (List.map_id _)
  rcases (h.text_of_mem ht).2 with ⟨c, cs, htext, hc⟩
  exact TreeLine.ofLine_render htext hc

end Expr

namespace Layer

variable {l l' : Layer}

/-- A header tells its symbol from its subscript. -/
theorem eq_of_header_eq (h : l.header = l'.header) :
    l.symbol = l'.symbol ∧ l.subscript = l'.subscript := by
  have hchars := congrArg String.toList h
  rw [toList_header, toList_header] at hchars
  obtain ⟨hglyph, hrest⟩ := List.cons.inj hchars
  have hsubscript := List.append_cancel_right (List.cons.inj hrest).2
  exact ⟨Symbol.eq_of_glyph_eq hglyph, String.toList_injective hsubscript⟩

/-- Whether an operator has a table of its own is a matter of its symbol. -/
theorem isSome_right?_eq (h : l.symbol = l'.symbol) : l.right?.isSome = l'.right?.isSome := by
  cases l <;> cases l' <;> simp_all [symbol, right?]

end Layer

namespace Expr

variable {e e' : Expr} {l : Layer}

/-- No name on a line of its own is taken for an operator. -/
theorem label_above_ne_name {name : String} (h : IsLineName name) : (l.above e).label ≠ name := by
  rw [label_above]
  rintro rfl
  exact (h.2 '[' (by simp [Layer.toList_header])).2.1 rfl

/-- No operator has the label of a product. -/
theorem label_above_ne_product : (l.above e).label ≠ Symbol.product.text := by
  rw [label_above]
  intro h
  have hchars := congrArg String.toList h
  rw [Layer.toList_header] at hchars
  simp [Symbol.text] at hchars

/-- A tree starts with the label of its expression. -/
theorem label_eq_of_treeLines_eq {level : Nat} (h : e.treeLines level = e'.treeLines level) :
    e.label = e'.label := by
  rw [treeLines_eq_cons, treeLines_eq_cons] at h
  exact congrArg TreeLine.text (List.cons.inj h).1

/-- The lines behind an operator tell its input, and the right table of a join. -/
theorem treeLines_input_inj {level : Nat} {right? right?' : Option String}
    (hsome : right?.isSome = right?'.isSome)
    (h : e.treeLines level ++ right?.toList.map (TreeLine.mk level) =
      e'.treeLines level ++ right?'.toList.map (TreeLine.mk level)) :
    e.treeLines level = e'.treeLines level ∧ right? = right?' := by
  cases right? with
  | none =>
    obtain rfl : right?' = none := by simpa using hsome.symm
    exact ⟨by simpa using h, rfl⟩
  | some right =>
    rcases Option.isSome_iff_exists.1 hsome.symm with ⟨right', rfl⟩
    obtain ⟨hinput, hright⟩ := List.append_inj' h rfl
    exact ⟨hinput, by simpa using hright⟩

/-- The lines of a plain expression tell it. -/
theorem treeLines_inj {level : Nat} (hlined : e.Lined) (hlined' : e'.Lined) (he : e.Plain)
    (he' : e'.Plain) (h : e.treeLines level = e'.treeLines level) :
    e.collapseConditions = e'.collapseConditions := by
  -- the first line shows the outermost node
  have hlabel := label_eq_of_treeLines_eq h
  induction e using layerInduction generalizing e' level with
  | relation name =>
    have hname : IsLineName name := hlined.tables name (by simp [Expr.tables])
    cases e' using layerInduction with
    | relation name' => exact congrArg relation hlabel
    | product tables' => exact absurd hlabel hname.1.2
    | above l' e' _ => exact absurd hlabel.symm (label_above_ne_name hname)
  | product tables =>
    cases e' using layerInduction with
    | relation name' =>
      have hname' : IsLineName name' := hlined'.tables name' (by simp [Expr.tables])
      exact absurd hlabel.symm hname'.1.2
    | product tables' =>
      rw [(List.map_inj_right fun _ _ => by simp).1 (List.cons.inj h).2]
    | above l' e' _ => exact absurd hlabel.symm label_above_ne_product
  | above l e ih =>
    cases e' using layerInduction with
    | relation name' =>
      have hname' : IsLineName name' := hlined'.tables name' (by simp [Expr.tables])
      exact absurd hlabel (label_above_ne_name hname')
    | product tables' => exact absurd hlabel label_above_ne_product
    | above l' e' _ =>
      rw [label_above, label_above] at hlabel
      rw [treeLines_above, treeLines_above] at h
      obtain ⟨hsymbol, hsubscript⟩ := Layer.eq_of_header_eq hlabel
      obtain ⟨hinput, hright⟩ :=
        treeLines_input_inj (Layer.isSome_right?_eq hsymbol) (List.cons.inj h).2
      obtain ⟨hl, he, -⟩ := he.above
      obtain ⟨hl', he', -⟩ := he'.above
      have hlayer := Layer.eq_of_subscript hl hl' hsymbol hsubscript hright
      have hrest := ih hlined.above.2.1 hlined'.above.2.1 he he' hinput
        (label_eq_of_treeLines_eq hinput)
      rw [collapseConditions_above, collapseConditions_above, hlayer, hrest]

/-- Trees show conditions with their blanks collapsed. -/
theorem treeLines_collapseConditions (level : Nat) (e : Expr) :
    e.collapseConditions.treeLines level = e.treeLines level := by
  induction e using layerInduction generalizing level with
  | relation name => rfl
  | product tables => rfl
  | above l e ih =>
    rw [collapseConditions_above, treeLines_above, treeLines_above, ih, l.header_collapseCondition,
      l.right?_collapseCondition]

/-- Two plain expressions have one indented form exactly when they are the same up to the blanks in
their conditions of joins. -/
theorem tree_eq_iff (hlined : e.Lined) (hlined' : e'.Lined) (he : e.Plain) (he' : e'.Plain) :
    e.tree = e'.tree ↔ e.collapseConditions = e'.collapseConditions := by
  constructor
  · intro h
    have hlines : e.lines = e'.lines := by rw [lines, lines, h]
    have htree : e.treeLines 0 = e'.treeLines 0 := by
      rw [← hlined.map_ofLine_lines, hlines, hlined'.map_ofLine_lines]
    exact treeLines_inj hlined hlined' he he' htree
  · intro h
    rw [tree, tree, ← treeLines_collapseConditions 0 e, h, treeLines_collapseConditions]

/-- The lines of an expression stand as its nodes do, and two plain expressions have one indented
form exactly when they have one form on one line. -/
theorem tree_layout :
    (∀ e : Expr, e.Lined → e.Layout) ∧
      ∀ e e' : Expr, e.Lined → e'.Lined → e.Plain → e'.Plain →
        (e.tree = e'.tree ↔ e.oneLine = e'.oneLine) := by
  refine ⟨fun e h => h.layout, fun e e' hlined hlined' he he' => ?_⟩
  rw [tree_eq_iff hlined hlined' he he']
  constructor
  · intro h
    rw [← oneLine_collapseConditions e, h, oneLine_collapseConditions]
  · intro h
    exact (oneLine_append_inj he he' closes_nil closes_nil (by rw [h])).1

/-- Two joins over a product, the outer one with the condition given. -/
def joinedOn (condition : String) : Expr :=
  .sort [⟨"n", .descending⟩] (.project ["n", "COUNT(*)"]
    (.join .full condition (.join .left "A.c = C.id" (.product ["A", "B"]) "C") "D"))

/-- A line end in the condition of a join is seen in neither form. -/
theorem tree_layout_joinedOn :
    Lined (joinedOn "A.d =\n  D.id") ∧ Plain (joinedOn "A.d =\n  D.id") ∧
      Layout (joinedOn "A.d =\n  D.id") ∧
      (joinedOn "A.d =\n  D.id").tree = (joinedOn " A.d = D.id").tree :=
  ⟨by decide, by decide, tree_layout.1 _ (by decide),
    (tree_layout.2 _ _ (by decide) (by decide) (by decide) (by decide)).2 (by decide)⟩

end Expr

end SelectAlgebra
