import HueSaturation.Raster.PixelBuffer

/-!
# Tiles

A host asks for its output one tile at a time. Tiles are squares, cut off at the right and at the
bottom edge, and listed row by row. What a render function makes of each tile is put together to an
image of the size of the source.

* `tileCount`    how many tiles a side has;
* `tileAt`       the tile in one column and one row of tiles;
* `tiles`        all tiles of an image;
* `Image.renderTile`   the render of one tile, which has to keep the size of the tile;
* `Image.renderTiled`  the render of every tile, put together.
-/

namespace HueSaturation

/-- The edge of a tile if nothing else is asked for. -/
def defaultTile : UInt32 := 256

/-- How many tiles with the edge `edge` a side of `side` pixels has. -/
def tileCount (side edge : UInt32) : UInt32 :=
  if side % edge = 0 then side / edge else side / edge + 1

/-- The tile in column `column` and row `row`, cut off at the edges of the image. -/
def tileAt (size : Size) (edge column row : UInt32) : Region :=
  let x := column * edge
  let y := row * edge
  .of x y (min (size.width - x) edge) (min (size.height - y) edge)

/-- The tiles of an image, row by row. An image without pixels has none. -/
def tiles (size : Size) (edge : UInt32) : Except RasterError (List Region) :=
  if edge = 0 then .error .emptyTiles
  else if size.area = 0 then .ok []
  else
    .ok <| (List.range (tileCount size.height edge).toNat).flatMap fun row =>
      (List.range (tileCount size.width edge).toNat).map fun column =>
        tileAt size edge (UInt32.ofNat column) (UInt32.ofNat row)

namespace Image

variable {π : Type}

/-- What `render` makes of one tile of an image. -/
def renderTile (source : Image π)
    (render : Image π → Region → Except (Failure RasterError) (Image π)) (tile : Region) :
    Except (Failure RasterError) (Region × Image π) := do
  let output ← render (← (← source.buffer.crop tile).image) tile
  if output.toSize = tile.toSize then
    return (tile, output)
  else
    throw (.refused (.wrongTile tile output.toSize))

/-- The renders of tiles put into an image, first to last. -/
def stitch (img : Image π) (rendered : List (Region × Image π)) :
    Except (Failure RasterError) (Image π) := do
  let pasted ← rendered.foldlM
    (fun b (tile, output) => b.paste output.buffer tile.x tile.y) img.buffer
  pasted.image

/-- What `render` makes of an image, tile by tile. The first tile that fails decides the failure. -/
def renderTiled [Channels π] (source : Image π) (edge : UInt32)
    (render : Image π → Region → Except (Failure RasterError) (Image π)) :
    Except (Failure RasterError) (Image π) := do
  let rendered ← (← tiles source.toSize edge).mapM (source.renderTile render)
  (blank source.toSize).stitch rendered

end Image
end HueSaturation
