import PageQueries.Text.Basic

/-!
# Markup

The text of a query is shown on its page as a block of preformatted text.  Seven characters would
be read as markup or as an expression of the page; each is written as an entity.
-/
namespace PageQueries.Markup

/-- A character as it is written in markup. -/
def escapeChar (c : Char) : Text :=
  if c = '&' then "&amp;".toList
  else if c = '<' then "&lt;".toList
  else if c = '>' then "&gt;".toList
  else if c = '"' then "&quot;".toList
  else if c = '\'' then "&#x27;".toList
  else if c = '\x7b' then "&#123;".toList
  else if c = '\x7d' then "&#125;".toList
  else [c]

/-- A text as it is written in markup (`escape_markup`). -/
def escape (t : Text) : Text := t.flatMap escapeChar

/-- The block that shows a query's text under a label (`highlight`). -/
def highlight (text label : Text) : Text :=
  "<pre class=\"language-sql\" data-query=\"".toList ++ escape label ++ "\"><code>".toList
    ++ escape text ++ "</code></pre>".toList

end PageQueries.Markup
