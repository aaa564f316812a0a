/-!
# Line ends

Files come with line ends of three kinds. Before a file is read as source, a carriage return
followed by a line feed and a carriage return on its own both become one line feed.
-/

namespace SnlFront.Text

/-- Write every line end as a single line feed. -/
def unifyNewlines : List Char → List Char
  | [] => []
  | '\r' :: '\n' :: cs => '\n' :: unifyNewlines cs
  | c :: cs => (if c = '\r' then '\n' else c) :: unifyNewlines cs

end SnlFront.Text
