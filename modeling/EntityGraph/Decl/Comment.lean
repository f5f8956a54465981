import EntityGraph.Json.Record

/-!
# Comments

A comment as a node writes it (`Comment`) and as documentation keeps it (`DocComment`): `Comment.doc` fills in the
empty body and takes the blanks from the end of the texts of the tags.
-/

namespace EntityGraph

/-- A tag of a comment, such as `@param name text`. -/
structure CommentTag where
  name : String
  text : String
  param : Option String
deriving DecidableEq, Inhabited

/-- A comment as a node writes it. -/
structure Comment where
  shortText : String
  text : Option String
  tags : List CommentTag
deriving DecidableEq, Inhabited

/-- A comment as documentation. -/
structure DocComment where
  shortText : String
  longText : String
  tags : List CommentTag
deriving DecidableEq, Inhabited

namespace CommentTag

/-- Reads a tag: `tag`, `text` and `param`. -/
def ofJson? (v : Json) : Option CommentTag := do
  let r ← Record.ofJson? ["tag", "text", "param"] v
  return {
    name := ← r.field? "tag" "" Json.string?
    text := ← r.field? "text" "" Json.string?
    param := ← r.field? "param" none (Json.nullable? Json.string?) }

/-- The tag without the blanks at the end of its text. -/
def trimmed (tag : CommentTag) : CommentTag := { tag with text := Text.trimEnd tag.text }

/-- A tag as an object; without `param` where there is none. -/
def toJson (tag : CommentTag) : Json :=
  .ofFields ([("tag", .str tag.name), ("text", .str tag.text)] ++ Json.optionalField "param" .str tag.param)

end CommentTag

namespace Comment

/-- Reads a comment: `shortText`, `text` and `tags`. -/
def ofJson? (v : Json) : Option Comment := do
  let r ← Record.ofJson? ["shortText", "text", "tags"] v
  return {
    shortText := ← r.field? "shortText" "" Json.string?
    text := ← r.field? "text" none (Json.nullable? Json.string?)
    tags := ← r.field? "tags" [] (Json.list? CommentTag.ofJson?) }

/-- The documentation in a comment. -/
def doc (c : Comment) : DocComment :=
  { shortText := c.shortText, longText := c.text.getD "", tags := c.tags.map CommentTag.trimmed }

end Comment

namespace DocComment

/-- The first tag of a name. -/
def tag? (name : String) (c : DocComment) : Option CommentTag := c.tags.find? fun tag => tag.name = name

/-- A comment or the absence of one, as an object. -/
def toJson : Option DocComment → Json
  | some c =>
    .ofFields [("present", .bool true), ("short_text", .str c.shortText), ("long_text", .str c.longText),
      ("tags", .ofList CommentTag.toJson c.tags)]
  | none =>
    .ofFields [("present", .bool false), ("short_text", .str ""), ("long_text", .str ""), ("tags", .arr [])]

end DocComment

end EntityGraph
