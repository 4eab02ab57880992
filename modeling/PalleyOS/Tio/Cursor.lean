import PalleyOS.Tio.Position

namespace PalleyOS.Tio

-- One step of the cursor, from any state, against the position in the buffer.
section Steps

end Steps

end PalleyOS.Tio
