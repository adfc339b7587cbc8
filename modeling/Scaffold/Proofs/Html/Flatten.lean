import Scaffold.Html.Node

/-!
# The tree keeps every token

Flattening a tree gives the tokens that it was built from, each at its place
(`flattenAll_ofTokens`).  The invariant is about a tree in the making: what its open elements and
its nodes flatten to is what was read so far, and a token is added to it at the end
(`Growth.flatten_step`).

Texts that stand next to each other are joined before the tree is built.  It makes no difference
to join them in the tree, one token at a time, as `Growth.feed` does (`foldl_feed`).
-/

namespace Scaffold.Html

/-! ## Flattening -/

mutual

/-- The tokens of a node.  An element has an end tag if it is closed and not self-closing. -/
def Node.flatten : Node → List Token
  | .doctype name => [.doctype (some name)]
  | .comment t => [.comment t]
  | .text t => [.text t]
  | .strayEnd name => [.endTag name]
  | .element name attributes selfClosing closed children =>
    .startTag name attributes selfClosing :: flattenAll children ++
      if closed && !selfClosing then [.endTag name] else []

/-- The tokens of a list of nodes. -/
def flattenAll : List Node → List Token
  | [] => []
  | node :: nodes => node.flatten ++ flattenAll nodes

end

/-- A token as the tree keeps it: void tags are self-closing, and a doctype without a name has an
empty one. -/
def Token.plain : Token → Token
  | .startTag name attributes selfClosing =>
    .startTag name attributes (selfClosing || isVoid name)
  | .doctype name => .doctype (some (name.getD []))
  | token => token

theorem flattenAll_append (nodes others : List Node) :
    flattenAll (nodes ++ others) = flattenAll nodes ++ flattenAll others := by
  induction nodes with
  | nil => rfl
  | cons node nodes ih => rw [List.cons_append, flattenAll, ih, flattenAll, List.append_assoc]

theorem flattenAll_singleton (node : Node) : flattenAll [node] = node.flatten := by
  rw [flattenAll, flattenAll, List.append_nil]

/-! ## Trees in the making -/

/-- The tokens of an open element: those before it and its start tag. -/
def OpenElement.flatten (e : OpenElement) : List Token :=
  flattenAll e.before ++ [.startTag e.name e.attributes false]

/-- An element that is ended keeps its tokens, and gets an end tag if it is closed. -/
theorem OpenElement.flattenAll_finish (e : OpenElement) (closed : Bool) (children : List Node) :
    flattenAll (e.finish closed children) =
      e.flatten ++ flattenAll children ++ if closed then [.endTag e.name] else [] := by
  rw [finish, flattenAll_append, flattenAll_singleton, Node.flatten, flatten]
  simp

namespace Growth

/-- The tokens of a tree in the making. -/
def flatten (g : Growth) : List Token :=
  g.stack.reverse.flatMap OpenElement.flatten ++ flattenAll g.nodes

theorem flatten_cons (e : OpenElement) (stack : List OpenElement) (nodes : List Node) :
    flatten ⟨e :: stack, nodes⟩ =
      stack.reverse.flatMap OpenElement.flatten ++ (e.flatten ++ flattenAll nodes) := by
  simp [flatten]

/-- A node adds its tokens at the end. -/
theorem flatten_add (g : Growth) (node : Node) :
    (g.add node).flatten = g.flatten ++ node.flatten := by
  rw [flatten, flatten, add, flattenAll_append, flattenAll_singleton, List.append_assoc]

/-- Leaving an element unclosed adds no token. -/
theorem flatten_finish_false (e : OpenElement) (stack : List OpenElement) (nodes : List Node) :
    flatten ⟨stack, e.finish false nodes⟩ = flatten ⟨e :: stack, nodes⟩ := by
  rw [flatten_cons, flatten, e.flattenAll_finish]
  simp

/-- Closing an element adds its end tag, however far down the stack it was. -/
theorem flatten_of_close? {name : Text} {stack : List OpenElement} {nodes : List Node}
    {g : Growth} (h : close? name stack nodes = some g) :
    g.flatten = flatten ⟨stack, nodes⟩ ++ [.endTag name] := by
  induction stack generalizing nodes with
  | nil => simp [close?] at h
  | cons e stack ih =>
    rw [close?] at h
    by_cases hname : e.name = name
    · rw [if_pos hname, Option.some.injEq] at h
      rw [← h, flatten, e.flattenAll_finish, flatten_cons, hname]
      simp
    · rw [if_neg hname] at h
      rw [ih h, flatten_finish_false]

/-- A token with content is added at the end, and any other token changes nothing. -/
theorem flatten_step (g : Growth) (token : Token) :
    (g.step token).flatten =
      g.flatten ++ if token.hasContent then [token.plain] else [] := by
  cases token with
  | startTag name attributes selfClosing =>
    rw [step, Token.plain]
    cases hself : selfClosing || isVoid name with
    | true => rw [if_pos rfl, flatten_add, Node.flatten, flattenAll]; rfl
    | false => simp [flatten, OpenElement.flatten, flattenAll, Token.hasContent]
  | endTag name =>
    rw [step]
    cases hclose : close? name g.stack g.nodes with
    | none => rw [Option.getD_none, flatten_add, Node.flatten]; rfl
    | some g' => rw [Option.getD_some, flatten_of_close? hclose]; rfl
  | text t => rw [step, flatten_add, Node.flatten]; rfl
  | comment t => rw [step, flatten_add, Node.flatten]; rfl
  | doctype name => rw [step, flatten_add, Node.flatten]; rfl
  | null => exact (List.append_nil _).symm
  | problem message => exact (List.append_nil _).symm
  | endOfInput => exact (List.append_nil _).symm

/-- Tokens that are read one by one are added at the end, as the tree keeps them. -/
theorem flatten_foldl_step (tokens : List Token) (g : Growth) :
    (tokens.foldl step g).flatten =
      g.flatten ++ (tokens.filter Token.hasContent).map Token.plain := by
  induction tokens generalizing g with
  | nil => simp
  | cons token tokens ih =>
    rw [List.foldl_cons, ih, flatten_step, List.append_assoc]
    cases hcontent : token.hasContent <;> simp [hcontent]

/-- Ending what is still open adds no token. -/
theorem flattenAll_finish (g : Growth) : flattenAll g.finish = g.flatten := by
  obtain ⟨stack, nodes⟩ := g
  induction stack generalizing nodes with
  | nil => rfl
  | cons e stack ih =>
    rw [← flatten_finish_false, ← ih]
    rfl

end Growth

/-! ## Joining texts -/

namespace Token

theorem join_of_ne_text {token : Token} (h : ∀ t, token ≠ .text t) (tokens : List Token) :
    token.join tokens = token :: tokens := by
  cases token with
  | text t => exact absurd rfl (h t)
  | _ => rfl

theorem join_text_of_ne_text (s : Text) {token : Token} (h : ∀ t, token ≠ .text t)
    (tokens : List Token) : join (.text s) (token :: tokens) = .text s :: token :: tokens := by
  cases token with
  | text t => exact absurd rfl (h t)
  | _ => rfl

/-- Three texts are joined to one, whichever two come first. -/
theorem join_text_join_text (s t : Text) (tokens : List Token) :
    join (.text s) (join (.text t) tokens) = join (.text (s ++ t)) tokens := by
  cases tokens with
  | nil => rfl
  | cons token tokens =>
    cases token with
    | text u => rw [join, join, join, List.append_assoc]
    | _ => rfl

theorem hasContent_of_mem_join {token other : Token} {tokens : List Token}
    (h : other ∈ join token tokens) (htoken : token.hasContent = true)
    (htokens : ∀ other ∈ tokens, other.hasContent = true) : other.hasContent = true := by
  unfold join at h
  split at h
  · rcases List.mem_cons.1 h with rfl | h
    · rfl
    · exact htokens other (List.mem_cons_of_mem _ h)
  · rcases List.mem_cons.1 h with rfl | h
    · exact htoken
    · exact htokens other h

theorem tidy_cons_of_hasContent {token : Token} (h : token.hasContent = true)
    (tokens : List Token) : tidy (token :: tokens) = token.join (tidy tokens) := by
  rw [tidy, List.filter_cons_of_pos h, List.foldr_cons]
  rfl

theorem tidy_cons_of_not_hasContent {token : Token} (h : token.hasContent = false)
    (tokens : List Token) : tidy (token :: tokens) = tidy tokens := by
  rw [tidy, List.filter_cons_of_neg (by simp [h])]
  rfl

/-- All tokens that are left by tidying carry content. -/
theorem hasContent_of_mem_tidy {tokens : List Token} :
    ∀ token ∈ tidy tokens, token.hasContent = true := by
  induction tokens with
  | nil => simp [tidy]
  | cons first tokens ih =>
    intro token h
    cases hcontent : first.hasContent with
    | true =>
      rw [tidy_cons_of_hasContent hcontent] at h
      exact hasContent_of_mem_join h hcontent ih
    | false =>
      rw [tidy_cons_of_not_hasContent hcontent] at h
      exact ih token h

end Token

namespace Growth

/-- Goes on with a token, and joins a text with one that stands directly before it. -/
def feed (g : Growth) : Token → Growth
  | .text t =>
    match g.nodes.getLast? with
    | some (.text last) => { g with nodes := g.nodes.dropLast ++ [.text (last ++ t)] }
    | _ => g.add (.text t)
  | token => g.step token

/-- Whether a text that comes next starts a node of its own. -/
def StartsText (g : Growth) : Prop :=
  ∀ t, g.nodes.getLast? ≠ some (.text t)

theorem feed_of_startsText {g : Growth} (h : g.StartsText) (t : Text) :
    g.feed (.text t) = g.add (.text t) := by
  unfold feed
  dsimp only
  split
  · next last hlast => exact absurd hlast (h last)
  · rfl

/-- A text goes on with the text before it. -/
theorem feed_add_text (g : Growth) (s t : Text) :
    (g.add (.text s)).feed (.text t) = g.add (.text (s ++ t)) := by
  simp [feed, add]

/-- Behind an element that was closed a text starts a node of its own. -/
theorem startsText_of_close? {name : Text} {stack : List OpenElement} {nodes : List Node}
    {g : Growth} (h : close? name stack nodes = some g) : g.StartsText := by
  induction stack generalizing nodes with
  | nil => simp [close?] at h
  | cons e stack ih =>
    rw [close?] at h
    by_cases hname : e.name = name
    · rw [if_pos hname, Option.some.injEq] at h
      intro t
      simp [← h, OpenElement.finish]
    · rw [if_neg hname] at h
      exact ih h

/-- Behind a token that is no text, a text starts a node of its own. -/
theorem startsText_step {g : Growth} {token : Token} (hcontent : token.hasContent = true)
    (htext : ∀ t, token ≠ .text t) : (g.step token).StartsText := by
  intro t
  cases token with
  | startTag name attributes selfClosing =>
    rw [step]
    split <;> simp [add]
  | endTag name =>
    rw [step]
    cases hclose : close? name g.stack g.nodes with
    | none => simp [add]
    | some g' => exact startsText_of_close? hclose t
  | text u => exact absurd rfl (htext u)
  | comment u => simp [step, add]
  | doctype name => simp [step, add]
  | null => exact absurd hcontent (by decide)
  | problem message => exact absurd hcontent (by simp [Token.hasContent])
  | endOfInput => exact absurd hcontent (by decide)

/-- Joining texts before the tree is built or while it is built comes to the same.  The second part
is about a text that may still grow. -/
theorem foldl_step_join {tokens : List Token} (h : ∀ token ∈ tokens, token.hasContent = true) :
    ∀ g : Growth, g.StartsText →
      (tokens.foldr Token.join []).foldl step g = tokens.foldl feed g ∧
        ∀ s, (Token.join (.text s) (tokens.foldr Token.join [])).foldl step g =
          tokens.foldl feed (g.add (.text s)) := by
  -- the second part is about a text that is held back, in case another one is joined to it
  induction tokens with
  | nil => exact fun g hg => ⟨rfl, fun s => rfl⟩
  | cons token tokens ih =>
    intro g hg
    have ih := ih fun other hother => h other (List.mem_cons_of_mem _ hother)
    have hcontent := h token List.mem_cons_self
    by_cases htext : ∃ t, token = .text t
    · obtain ⟨t, rfl⟩ := htext
      refine ⟨?_, fun s => ?_⟩
      · rw [List.foldr_cons, List.foldl_cons, feed_of_startsText hg]
        exact (ih g hg).2 t
      · rw [List.foldr_cons, Token.join_text_join_text, List.foldl_cons, feed_add_text]
        exact (ih g hg).2 (s ++ t)
    · have hne : ∀ t, token ≠ .text t := fun t ht => htext ⟨t, ht⟩
      have hfeed : ∀ g : Growth, g.feed token = g.step token := by
        intro g
        cases token with
        | text t => exact absurd rfl (hne t)
        | _ => rfl
      have hnext : ∀ g : Growth, (token :: tokens.foldr Token.join []).foldl step g =
          (token :: tokens).foldl feed g := by
        intro g
        rw [List.foldl_cons, List.foldl_cons, hfeed]
        exact (ih (g.step token) (startsText_step hcontent hne)).1
      rw [List.foldr_cons, Token.join_of_ne_text hne]
      refine ⟨hnext g, fun s => ?_⟩
      rw [Token.join_text_of_ne_text s hne, List.foldl_cons]
      exact hnext (g.add (.text s))

theorem foldl_feed_filter (tokens : List Token) (g : Growth) :
    (tokens.filter Token.hasContent).foldl feed g = tokens.foldl feed g := by
  induction tokens generalizing g with
  | nil => rfl
  | cons token tokens ih =>
    cases hcontent : token.hasContent with
    | true => rw [List.filter_cons_of_pos hcontent, List.foldl_cons, ih, List.foldl_cons]
    | false =>
      rw [List.filter_cons_of_neg (by simp [hcontent]), ih, List.foldl_cons]
      cases token with
      | null => rfl
      | problem message => rfl
      | endOfInput => rfl
      | _ => simp [Token.hasContent] at hcontent

/-- The tree of a list of tokens can be built one token at a time. -/
theorem foldl_feed (tokens : List Token) :
    (Token.tidy tokens).foldl step ⟨[], []⟩ = tokens.foldl feed ⟨[], []⟩ := by
  rw [← foldl_feed_filter]
  exact (foldl_step_join (fun token h => (List.mem_filter.1 h).2) _ (by simp [StartsText])).1

end Growth

/-! ## The tree of a list of tokens -/

/-- A tree keeps every token that carries content, at its place. -/
theorem flattenAll_ofTokens (tokens : List Token) :
    flattenAll (ofTokens tokens) = (Token.tidy tokens).map Token.plain := by
  have hcontent : (Token.tidy tokens).filter Token.hasContent = Token.tidy tokens :=
    List.filter_eq_self.2 Token.hasContent_of_mem_tidy
  rw [ofTokens, Growth.flattenAll_finish, Growth.flatten_foldl_step, hcontent]
  rfl

/-- A tree that is built one token at a time keeps every token that carries content, at its place
and with texts joined. -/
theorem flatten_foldl_feed (tokens : List Token) :
    ofTokens tokens = (tokens.foldl Growth.feed ⟨[], []⟩).finish ∧
      flattenAll (tokens.foldl Growth.feed ⟨[], []⟩).finish =
        (Token.tidy tokens).map Token.plain := by
  have htree : ofTokens tokens = (tokens.foldl Growth.feed ⟨[], []⟩).finish := by
    rw [ofTokens, Growth.foldl_feed]
  exact ⟨htree, htree ▸ flattenAll_ofTokens tokens⟩

end Scaffold.Html
