import MetricHistory.Json.Normal
import MetricHistory.Output.Style
import MetricHistory.Text.Capital
import MetricHistory.Text.Width

/-!
# Blocks of output

A result is laid out as tables, sections of text and reports made of them.  Each block can be
written as text for a terminal, as Markdown, or as JSON, for which it may carry data of its own.

* `Block.text`, `Block.markdown` and `Block.json` are the three renderings.
* `Table.grid` lays cells out in columns as wide as their widest line.
-/

namespace MetricHistory

namespace Output

/-- A table.  Rows may be shorter or longer than the headers. -/
structure Table where
  title : Text := []
  headers : List Text := []
  rows : List (List Text) := []
  footer : List Text := []
  data : Option Json := none

/-- A block of text under a title. -/
structure Section where
  title : Text := []
  content : Text := []
  data : Option Json := none

/-- A block of output. -/
inductive Block where
  | table (t : Table)
  | section (s : Section)
  | report (title : Text) (parts : List Block) (data : Option Json)

/-! ### Titles -/

/-- A title with a line of marks under it, as many as the title has bytes. -/
def underlined (style : Style) (mark : Text) (colored : Bool) (title : Text) : Text :=
  style.paint colored title ++ "\n" ++ Text.replicate title.length mark ++ "\n"

/-- A Markdown heading. -/
def heading (marks title : Text) : Text :=
  if title.isEmpty then [] else marks ++ " " ++ title ++ "\n\n"

/-! ### Tables -/

namespace Table

/-- How a header is shown: in capitals, with spaces for underscores. -/
def headerText (t : Text) : Text := Text.capitals (Text.replaceByte (Text.byte '_') " " t)

/-- The lines of the cells of a row, every cell with as many lines as the tallest. -/
def cellLines (row : List Text) : List (List Text) :=
  let cells := row.map Text.lines
  let height := (cells.map List.length).foldl max 1
  (List.range height).map fun i => cells.map fun c => c.getD i []

/-- The columns that the cells of one line need at least. -/
def widen : List Nat → List Text → List Nat
  | ws, [] => ws
  | [], c :: cs => c.width :: widen [] cs
  | w :: ws, c :: cs => max w c.width :: widen ws cs

/-- One line of cells, each between spaces; missing cells are blank. -/
def gridLine : List Nat → List Text → Text
  | [], _ => "\n"
  | w :: ws, [] => Text.replicate (w + 2) " " ++ gridLine ws []
  | w :: ws, c :: cs => " " ++ c.padRight w ++ " " ++ gridLine ws cs

/-- The lines of a row. -/
def gridRow (widths : List Nat) (row : List Text) : Text :=
  (cellLines row).flatMap (gridLine widths)

/-- The table in columns, with a rule under the headers, unless there are no rows, and above the
footer. -/
def grid (t : Table) : Text :=
  let headers := t.headers.map headerText
  let rows := headers :: t.rows ++ [t.footer]
  let widths := (rows.flatMap cellLines).foldl widen []
  let rule : Text := Text.replicate ((widths.map (· + 2)).foldl (· + ·) 0) "─" ++ "\n"
  let head : Text := if headers.isEmpty then [] else gridRow widths headers
  let headRule : Text := if t.rows.isEmpty || headers.isEmpty then [] else rule
  let foot : Text := if t.footer.isEmpty then [] else rule ++ gridRow widths t.footer
  head ++ headRule ++ t.rows.flatMap (gridRow widths) ++ foot

/-- A row of a Markdown table. -/
def markdownRow (cells : List Text) : Text := "| " ++ Text.join " | " cells ++ " |\n"

/-- The table in Markdown. -/
def markdown (t : Table) : Text :=
  let foot : Text := if t.footer.isEmpty then [] else markdownRow t.footer
  heading "##" t.title ++ markdownRow t.headers ++
    markdownRow (t.headers.map fun _ => Text.ofString "---") ++ t.rows.flatMap markdownRow ++
    foot ++ "\n"

/-- The table as text. -/
def text (colored : Bool) (t : Table) : Text :=
  let title : Text := if t.title.isEmpty then [] else underlined .bold "=" colored t.title ++ "\n"
  title ++ t.grid ++ "\n"

/-- A row as an object from headers to cells, by key; of two equal headers the last counts. -/
def rowJson (headers row : List Text) : Json :=
  let members := (headers.zip row).foldl (fun ms (h, c) => Json.insertMember h c ms) []
  Json.record (members.map fun (h, c) => (Literal.escape true h, Json.ofText true c))

/-- The data of a table: its own, or its rows. -/
def json (t : Table) : Json := t.data.getD (Json.list (t.rows.map (rowJson t.headers)))

end Table

/-! ### Sections -/

namespace Section

/-- The section as text. -/
def text (colored : Bool) (s : Section) : Text :=
  let title : Text := if s.title.isEmpty then [] else underlined .bold "-" colored s.title
  let content : Text := if s.content.isEmpty then [] else s.content ++ "\n"
  title ++ content

/-- The section in Markdown. -/
def markdown (s : Section) : Text :=
  let content : Text := if s.content.isEmpty then [] else s.content ++ "\n\n"
  heading "##" s.title ++ content

/-- A member of an object, left out when its text is empty. -/
def textMember (key t : Text) : List (Text × Json) :=
  if t.isEmpty then [] else [(key, Json.ofText true t)]

/-- The data of a section: its own, or its title and content. -/
def json (s : Section) : Json :=
  s.data.getD (Json.record (textMember "title" s.title ++ textMember "content" s.content))

end Section

/-! ### Blocks -/

namespace Block

mutual

/-- A block as text for a terminal. -/
def text (colored : Bool) : Block → Text
  | table t => t.text colored
  | .section s => s.text colored
  | report title parts _ =>
    let head : Text :=
      if title.isEmpty then [] else underlined .boldCyan "=" colored title ++ "\n"
    head ++ partsText colored parts

/-- The parts of a report as text, with an empty line between neighbours. -/
def partsText (colored : Bool) : List Block → Text
  | [] => []
  | [b] => text colored b
  | b :: bs => text colored b ++ "\n" ++ partsText colored bs

end

mutual

/-- A block in Markdown. -/
def markdown : Block → Text
  | table t => t.markdown
  | .section s => s.markdown
  | report title parts _ => heading "#" title ++ partsMarkdown parts

/-- The parts of a report in Markdown. -/
def partsMarkdown : List Block → Text
  | [] => []
  | b :: bs => markdown b ++ partsMarkdown bs

end

mutual

/-- The data of a block. -/
def json : Block → Json
  | table t => t.json
  | .section s => s.json
  | report title parts data =>
    data.getD (Json.record [("sections", Json.list (partsJson parts)),
      ("title", Json.ofText true title)])

/-- The data of the parts of a report. -/
def partsJson : List Block → List Json
  | [] => []
  | b :: bs => json b :: partsJson bs

end

end Block

/-- Data as indented JSON. -/
def jsonText (j : Json) : Text := j.indented 0 ++ "\n"

/-- A block in a format. -/
def render (format : Format) (colored : Bool) (b : Block) : Text :=
  match format with
  | .text => b.text colored
  | .markdown => b.markdown
  | .json => jsonText b.json

end Output

end MetricHistory
