import Scaffold.Proofs.Html.Spelling

/-!
# Trimmed trees

The *trimmed* tree has a node for each trimmed line of a text where a tree has the text.  It is the
tree of the essence of the tokens (`trimmedAll_ofTokens`), as trimming goes along with every step
by which a tree is made.

In a tree that is read no two texts stand next to each other, and a self-closing element is empty
(`tidyAll_ofTokens`).
-/

namespace Scaffold.Html

open Scaffold.Text

/-! ## Trimming -/

mutual

/-- The nodes that take the place of a node: for a text its trimmed lines. -/
def Node.trimmed : Node → List Node
  | .text t => (trimmedLines t).map .text
  | .element name attributes selfClosing closed children =>
    [.element name attributes selfClosing closed (trimmedAll children)]
  | node => [node]

/-- A list of nodes with the trimmed lines of every text in its place. -/
def trimmedAll : List Node → List Node
  | [] => []
  | node :: nodes => node.trimmed ++ trimmedAll nodes

end

theorem trimmedAll_append (nodes others : List Node) :
    trimmedAll (nodes ++ others) = trimmedAll nodes ++ trimmedAll others := by
  induction nodes with
  | nil => rfl
  | cons node nodes ih => rw [List.cons_append, trimmedAll, ih, trimmedAll, List.append_assoc]

theorem trimmedAll_singleton (node : Node) : trimmedAll [node] = node.trimmed := by
  rw [trimmedAll, trimmedAll, List.append_nil]

theorem flattenAll_texts (ls : List Text) : flattenAll (ls.map .text) = ls.map .text := by
  induction ls with
  | nil => rfl
  | cons l ls ih =>
    rw [List.map_cons, flattenAll, ih]
    rfl

mutual

/-- The tokens of a trimmed node are those of the node, cut into lines. -/
theorem Node.flattenAll_trimmed (node : Node) :
    flattenAll node.trimmed = node.flatten.flatMap Token.lines := by
  cases node with
  | text t => simp [Node.trimmed, Node.flatten, Token.lines, flattenAll_texts]
  | element name attributes selfClosing closed children =>
    rw [Node.trimmed, flattenAll_singleton, Node.flatten, Node.flatten,
      flattenAll_trimmedAll children, List.flatMap_append]
    congr 1
    split <;> rfl
  | doctype | comment | strayEnd => rfl

/-- The tokens of a trimmed tree: texts give their lines. -/
theorem flattenAll_trimmedAll (nodes : List Node) :
    flattenAll (trimmedAll nodes) = (flattenAll nodes).flatMap Token.lines := by
  cases nodes with
  | nil => rfl
  | cons node nodes =>
    rw [trimmedAll, flattenAll_append, node.flattenAll_trimmed, flattenAll_trimmedAll nodes,
      flattenAll, List.flatMap_append]

end

/-! ## Trimming a tree in the making -/

/-- An open element with trimmed nodes before it. -/
def OpenElement.trimmed (e : OpenElement) : OpenElement :=
  { e with before := trimmedAll e.before }

/-- An element can be trimmed before it is ended or after. -/
theorem OpenElement.trimmedAll_finish (e : OpenElement) (closed : Bool) (children : List Node) :
    trimmedAll (e.finish closed children) = e.trimmed.finish closed (trimmedAll children) := by
  rw [finish, trimmedAll_append, trimmedAll_singleton, Node.trimmed]
  rfl

namespace Growth

/-- A tree in the making with all its nodes trimmed. -/
def trimmed (g : Growth) : Growth :=
  ⟨g.stack.map OpenElement.trimmed, trimmedAll g.nodes⟩

theorem trimmed_add (g : Growth) (node : Node) :
    (g.add node).trimmed = { g.trimmed with nodes := g.trimmed.nodes ++ node.trimmed } := by
  rw [trimmed, add, trimmedAll_append, trimmedAll_singleton]
  rfl

/-- Trimming makes no difference to which element an end tag closes. -/
theorem close?_trimmed (name : Text) (stack : List OpenElement) (nodes : List Node) :
    close? name (stack.map OpenElement.trimmed) (trimmedAll nodes) =
      (close? name stack nodes).map trimmed := by
  induction stack generalizing nodes with
  | nil => rfl
  | cons e stack ih =>
    rw [List.map_cons, close?, close?, ← e.trimmedAll_finish, ← e.trimmedAll_finish, ih]
    show (if e.name = name then _ else _) = _
    split <;> rfl

/-- Lines of text are added as they come. -/
theorem foldl_step_texts (ls : List Text) (g : Growth) :
    (ls.map Token.text).foldl step g = { g with nodes := g.nodes ++ ls.map .text } := by
  induction ls generalizing g with
  | nil => simp
  | cons l ls ih =>
    rw [List.map_cons, List.foldl_cons, ih]
    simp [step, add]

/-- To go on with a token and to trim is to trim and to go on with the lines of the token. -/
theorem trimmed_step (g : Growth) (token : Token) :
    (g.step token).trimmed = token.lines.foldl step g.trimmed := by
  cases token with
  | startTag name attributes selfClosing =>
    show _ = g.trimmed.step (.startTag name attributes selfClosing)
    rw [step, step]
    split
    · exact g.trimmed_add _
    · rfl
  | endTag name =>
    show _ = g.trimmed.step (.endTag name)
    have hclose := close?_trimmed name g.stack g.nodes
    rw [step, step]
    show _ = (close? name (g.stack.map OpenElement.trimmed) (trimmedAll g.nodes)).getD _
    rw [hclose]
    cases close? name g.stack g.nodes with
    | none => exact g.trimmed_add _
    | some g' => rfl
  | text t =>
    rw [Token.lines, foldl_step_texts]
    exact g.trimmed_add _
  | comment t => exact g.trimmed_add _
  | doctype name => exact g.trimmed_add _
  | null | problem | endOfInput => rfl

/-- A tree that was made from tokens and trimmed is made from the lines of the tokens. -/
theorem trimmed_foldl_step (tokens : List Token) (g : Growth) :
    (tokens.foldl step g).trimmed = (tokens.flatMap Token.lines).foldl step g.trimmed := by
  induction tokens generalizing g with
  | nil => rfl
  | cons token tokens ih =>
    rw [List.foldl_cons, ih, trimmed_step, List.flatMap_cons, List.foldl_append]

theorem trimmedAll_finish (g : Growth) : trimmedAll g.finish = g.trimmed.finish := by
  obtain ⟨stack, nodes⟩ := g
  induction stack generalizing nodes with
  | nil => rfl
  | cons e stack ih =>
    have := ih (e.finish false nodes)
    rw [trimmed, e.trimmedAll_finish] at this
    exact this

/-- A tree grows by a token as it does by the token that it keeps of it. -/
theorem step_plain (g : Growth) (token : Token) : g.step token.plain = g.step token := by
  cases token with
  | startTag name attributes selfClosing => simp [Token.plain, step]
  | doctype name => cases name <;> rfl
  | _ => rfl

end Growth

/-- The trimmed tree of tokens is the tree of their essence. -/
theorem trimmedAll_ofTokens (tokens : List Token) :
    trimmedAll (ofTokens tokens) =
      ((Token.essence tokens).foldl Growth.step ⟨[], []⟩).finish := by
  have hplain : ∀ g : Growth, ∀ token, g.step (Token.plain token) = g.step token :=
    Growth.step_plain
  rw [ofTokens, Growth.trimmedAll_finish, Growth.trimmed_foldl_step, Token.essence, List.foldl_map]
  simp only [hplain]
  rfl

theorem Token.lines_plain (token : Token) : token.plain.lines = token.lines.map plain := by
  cases token with
  | text t => simp [plain, lines]
  | _ => rfl

/-- The tokens of a trimmed tree are the essence of those that it was made from. -/
theorem flattenAll_trimmedAll_ofTokens (tokens : List Token) :
    flattenAll (trimmedAll (ofTokens tokens)) = Token.essence tokens := by
  rw [flattenAll_trimmedAll, flattenAll_ofTokens, Token.essence, List.flatMap_map,
    List.map_flatMap]
  simp only [Token.lines_plain]

/-! ## Tidy trees -/

/-- Whether a node is a text. -/
def Node.isText : Node → Bool
  | .text _ => true
  | _ => false

mutual

/-- A node in which no two texts stand next to each other and self-closing elements are empty. -/
def Node.Tidy : Node → Prop
  | .element _ _ selfClosing _ children => (selfClosing = true → children = []) ∧ TidyAll children
  | _ => True

/-- A list of nodes in which this is so, at its own level too. -/
def TidyAll : List Node → Prop
  | [] => True
  | node :: nodes =>
    node.Tidy ∧ (node.isText = true → ∀ next ∈ nodes.head?, next.isText = false) ∧ TidyAll nodes

end

/-- A node at the end keeps a list tidy, unless it makes two texts stand side by side. -/
theorem tidyAll_concat {nodes : List Node} {node : Node} :
    TidyAll (nodes ++ [node]) ↔
      TidyAll nodes ∧ node.Tidy ∧
        (node.isText = true → ∀ last ∈ nodes.getLast?, last.isText = false) := by
  induction nodes with
  | nil => simp [TidyAll]
  | cons first nodes ih =>
    rw [List.cons_append, TidyAll, ih, TidyAll]
    cases nodes with
    | nil =>
      -- the two nodes are next to each other
      cases hfirst : first.isText <;> cases hnode : node.isText <;> simp [TidyAll, hfirst, hnode]
    | cons second nodes =>
      rw [List.getLast?_cons_cons]
      simp only [List.cons_append, List.head?_cons, and_assoc]

theorem OpenElement.tidyAll_finish {e : OpenElement} {closed : Bool} {children : List Node}
    (he : TidyAll e.before) (h : TidyAll children) : TidyAll (e.finish closed children) :=
  tidyAll_concat.2 ⟨he, ⟨fun hself => (Bool.false_ne_true hself).elim, h⟩,
    fun htext => (Bool.false_ne_true htext).elim⟩

namespace Growth

/-- A tree in the making in which all nodes are tidy. -/
def Tidy (g : Growth) : Prop :=
  TidyAll g.nodes ∧ ∀ e ∈ g.stack, TidyAll e.before

/-- Closing an element keeps a tree tidy. -/
theorem tidy_of_close? {name : Text} {stack : List OpenElement} {nodes : List Node} {g : Growth}
    (h : close? name stack nodes = some g) (htidy : Tidy ⟨stack, nodes⟩) : g.Tidy := by
  induction stack generalizing nodes with
  | nil => simp [close?] at h
  | cons e stack ih =>
    obtain ⟨hnodes, hstack⟩ := htidy
    obtain ⟨he, hstack⟩ := List.forall_mem_cons.1 hstack
    rw [close?] at h
    split at h
    · rw [← Option.some.inj h]
      exact ⟨OpenElement.tidyAll_finish he hnodes, hstack⟩
    · exact ih h ⟨OpenElement.tidyAll_finish he hnodes, hstack⟩

theorem tidy_add {g : Growth} (h : g.Tidy) {node : Node} (hnode : node.Tidy)
    (htext : node.isText = false) : (g.add node).Tidy :=
  ⟨tidyAll_concat.2 ⟨h.1, hnode, fun hnode => absurd hnode (by simp [htext])⟩, h.2⟩

/-- A token keeps a tree tidy, since a text goes on with the text before it. -/
theorem tidy_feed {g : Growth} (h : g.Tidy) (token : Token) : (g.feed token).Tidy := by
  cases token with
  | startTag name attributes selfClosing =>
    show (g.step _).Tidy
    rw [step]
    split
    · exact tidy_add h ⟨fun _ => rfl, trivial⟩ rfl
    · exact ⟨trivial, List.forall_mem_cons.2 ⟨h.1, h.2⟩⟩
  | endTag name =>
    show (g.step _).Tidy
    rw [step]
    cases hclose : close? name g.stack g.nodes with
    | none => exact tidy_add h trivial rfl
    | some g' => exact tidy_of_close? hclose h
  | text t =>
    unfold feed
    dsimp only
    split
    -- a text behind a text is joined to it, so no two stand side by side
    · next last hlast =>
      obtain ⟨front, hfront⟩ := List.getLast?_eq_some_iff.1 hlast
      have hnodes := h.1
      rw [hfront, tidyAll_concat] at hnodes
      refine ⟨?_, h.2⟩
      show TidyAll (g.nodes.dropLast ++ [.text (last ++ t)])
      rw [hfront, List.dropLast_concat, tidyAll_concat]
      exact ⟨hnodes.1, trivial, fun _ => hnodes.2.2 rfl⟩
    · next hlast =>
      refine ⟨tidyAll_concat.2 ⟨h.1, trivial, fun _ last hmem => ?_⟩, h.2⟩
      cases last with
      | text s => exact absurd hmem (hlast s)
      | _ => rfl
  | comment t => exact tidy_add h trivial rfl
  | doctype name => exact tidy_add h trivial rfl
  | null | problem | endOfInput => exact h

theorem tidy_foldl_feed (tokens : List Token) {g : Growth} (h : g.Tidy) :
    (tokens.foldl feed g).Tidy := by
  induction tokens generalizing g with
  | nil => exact h
  | cons token tokens ih => exact ih (tidy_feed h token)

/-- Ending what is still open keeps a tree tidy. -/
theorem tidyAll_finish {g : Growth} (h : g.Tidy) : TidyAll g.finish := by
  obtain ⟨stack, nodes⟩ := g
  induction stack generalizing nodes with
  | nil => exact h.1
  | cons e stack ih =>
    obtain ⟨he, hstack⟩ := List.forall_mem_cons.1 h.2
    exact ih _ ⟨OpenElement.tidyAll_finish he h.1, hstack⟩

end Growth

/-- The tree of a list of tokens is tidy. -/
theorem tidyAll_ofTokens (tokens : List Token) : TidyAll (ofTokens tokens) := by
  have hempty : Growth.Tidy ⟨[], []⟩ := ⟨trivial, List.forall_mem_nil _⟩
  rw [ofTokens, Growth.foldl_feed]
  exact Growth.tidyAll_finish (Growth.tidy_foldl_feed tokens hempty)

end Scaffold.Html
