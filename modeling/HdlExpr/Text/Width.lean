import HdlExpr.Text.Cluster

/-!
# Width on a terminal

How many columns a text takes.  A cluster takes as many as its first character: none for a mark
or a control character, two for the wide characters of East Asian scripts and for emoji, and one
for everything else.  The sequences that a terminal obeys take none.
-/

namespace HdlExpr.Text

/-! ## Characters -/

/-- The characters that take two columns in Unicode 16.0. -/
def wideRanges : Array (Nat × Nat) := #[
  (4352, 4447), (8986, 8987), (9001, 9002), (9193, 9196), (9200, 9200), (9203, 9203), (9725, 9726),
  (9748, 9749), (9776, 9783), (9800, 9811), (9855, 9855), (9866, 9871), (9875, 9875), (9889, 9889),
  (9898, 9899), (9917, 9918), (9924, 9925), (9934, 9934), (9940, 9940), (9962, 9962), (9970, 9971),
  (9973, 9973), (9978, 9978), (9981, 9981), (9989, 9989), (9994, 9995), (10024, 10024),
  (10060, 10060), (10062, 10062), (10067, 10069), (10071, 10071), (10133, 10135), (10160, 10160),
  (10175, 10175), (11035, 11036), (11088, 11088), (11093, 11093), (11904, 11929), (11931, 12019),
  (12032, 12245), (12272, 12329), (12334, 12350), (12353, 12438), (12443, 12543), (12549, 12591),
  (12593, 12686), (12688, 12773), (12783, 12830), (12832, 12871), (12880, 42124), (42128, 42182),
  (43360, 43388), (44032, 55203), (63744, 64255), (65040, 65049), (65072, 65106), (65108, 65126),
  (65128, 65131), (65281, 65376), (65504, 65510), (94176, 94179), (94192, 94193), (94208, 100343),
  (100352, 101589), (101631, 101640), (110576, 110579), (110581, 110587), (110589, 110590),
  (110592, 110882), (110898, 110898), (110928, 110930), (110933, 110933), (110948, 110951),
  (110960, 111355), (119552, 119638), (119648, 119670), (126980, 126980), (127183, 127183),
  (127374, 127374), (127377, 127386), (127462, 127490), (127504, 127547), (127552, 127560),
  (127568, 127569), (127584, 127589), (127744, 127776), (127789, 127797), (127799, 127868),
  (127870, 127891), (127904, 127946), (127951, 127955), (127968, 127984), (127988, 127988),
  (127992, 128062), (128064, 128064), (128066, 128252), (128255, 128317), (128331, 128334),
  (128336, 128359), (128378, 128378), (128405, 128406), (128420, 128420), (128507, 128591),
  (128640, 128709), (128716, 128716), (128720, 128722), (128725, 128727), (128732, 128735),
  (128747, 128748), (128756, 128764), (128992, 129003), (129008, 129008), (129292, 129338),
  (129340, 129349), (129351, 129535), (129648, 129660), (129664, 129673), (129679, 129734),
  (129742, 129756), (129759, 129769), (129776, 129784), (131072, 196605), (196608, 262141)]

/-- The format characters, and the marks for the ends of lines and paragraphs. -/
def formatRanges : Array (Nat × Nat) := #[
  (173, 173), (1536, 1541), (1564, 1564), (1757, 1757), (1807, 1807), (2192, 2193),
  (2274, 2274), (6158, 6158), (8203, 8207), (8232, 8238), (8288, 8292), (8294, 8303),
  (65279, 65279), (65529, 65531), (69821, 69821), (69837, 69837), (78896, 78911), (113824, 113827),
  (119155, 119162), (917505, 917505), (917536, 917631)]

def columns (c : Char) : Nat :=
  let n := c.toNat
  if n < 0x20 || (0x7f ≤ n && n < 0xa0) then 0
  else if n < 0x7f then 1
  else if inRanges nonspacingRanges n || inRanges formatRanges n then 0
  else if inRanges wideRanges n then 2
  else 1

/-- The columns of a cluster that begins with `c` and goes on with `next`, which may ask for the
form of an emoji. -/
def clusterColumns (c : Char) (next : Option Char) : Nat :=
  if next == some '\ufe0f' then 2 else columns c

/-! ## Sequences for the terminal -/

/-- Where a terminal stands in its input. -/
inductive Mode where
  /-- In text. -/
  | text
  /-- After the character that begins a sequence. -/
  | escape
  /-- In a sequence with characters before its final one. -/
  | intermediate
  /-- In a control sequence, which ends with a letter or the like. -/
  | control
  /-- In the head of a string for a device. -/
  | head
  /-- In a string that only the end of a string ends. -/
  | string
  /-- In a string with any text, such as the title of a window or one for a device. -/
  | payload

namespace Mode

def next (m : Mode) (c : Char) : Mode :=
  let n := c.toNat
  if n = 0x1b then .escape
  else if n = 0x18 || n = 0x1a then .text
  else match m with
    | .text => .text
    | .escape =>
      if n < 0x20 || n = 0x7f then .escape
      else if n < 0x30 then .intermediate
      else if c == '[' then .control
      else if c == ']' then .payload
      else if c == 'P' then .head
      else if c == 'X' || c == '^' || c == '_' then .string
      else .text
    | .intermediate => if n < 0x30 || n = 0x7f then .intermediate else .text
    | .control => if n < 0x40 || n = 0x7f then .control else .text
    | .head => if n < 0x40 || n = 0x7f then .head else .payload
    | .string => .string
    | .payload => if n = 0x07 then .text else .payload

end Mode

/-! ## Lines -/

/-- The columns that a line takes, from a mode on and behind a cluster that may go on. -/
def widthFrom : Mode → Option Cluster → List Char → Nat
  | _, _, [] => 0
  | mode, cluster, c :: rest =>
    match cluster.filter (·.takes c) with
    | some k => widthFrom .text (some (k.push c)) rest
    | none =>
      if c.toNat < 0x80 then
        (if mode matches .text then columns c else 0) + widthFrom (mode.next c) none rest
      else if mode matches .payload then widthFrom .payload none rest
      else clusterColumns c rest.head? + widthFrom .text (some (Cluster.start c)) rest

def width (line : List Char) : Nat := widthFrom .text none line

end HdlExpr.Text
