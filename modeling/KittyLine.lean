import KittyLine.Cell
import KittyLine.AnsiBuf
import KittyLine.Sgr
import KittyLine.Ansi
import KittyLine.Unicode
import KittyLine.Marker
import KittyLine.UrlStart
import KittyLine.UrlEnd
import KittyLine.Visible
import KittyLine.AsText
import KittyLine.CellRead
import KittyLine.Mutators
import KittyLine.Pass
import KittyLine.Flatten
import KittyLine.MarkWalk
import KittyLine.CellWrite
import KittyLine.Edits
