import VectorDisplay.CommandLine.Arguments
set_option autoImplicit false

namespace VectorDisplay

namespace CommandLine

def usage : String := "Usage: vectordisplay [OPTIONS] <INPUTS>..."

def help : String := String.intercalate "\n" [
  "Render images into fixed-size frames of beam samples",
  "",
  usage,
  "",
  "  <INPUTS>...               Input images, rendered in order",
  "  -o, --output PATH         Output file for packed sample records [vector.bin]",
  "  -m, --mode MODE           contour (trace outlines) or raster (serpentine scan) [contour]",
  "  -r, --resolution SIZE     Samples per frame, WIDTHxHEIGHT [800x600]",
  "      --move-speed N        Travel cost per source pixel between contours [0]",
  "      --blank-fraction N    Beam-off share of each move segment, 0.0-1.0 [0]",
  "      --min-length N        Drop contours with fewer points than this [3]",
  "      --dither              Dither contour points between neighbouring device coordinates",
  "      --ordering ORDER      identity (as traced) or greedy (nearest next contour) [identity]",
  "      --edges EDGES         Edge detection before tracing: canny or off [canny]",
  "      --canny LOW,HIGH      Canny thresholds [128,130]",
  "      --threshold N         Clear luma at or below this value before tracing [0]",
  "      --scan SIZE           Raster scan grid COLUMNSxROWS [512x256]",
  "      --park X,Y            Device coordinate for blank samples [0,0]",
  "  -l, --loops N             Passes over the inputs, 0 for no end [1]",
  "      --report PATH         Write one JSON line per frame with generation diagnostics",
  "  -h, --help                Print help"]

def UsageError.message : UsageError → String
  | missingInput => "error: no input image is given"
  | invalidValue => "error: a value is missing or is not one of the choices"
  | invalidNumber => "error: a value is not a number in range"
  | unknownArgument => "error: there is no such option"
  | conflict => "error: an option is given twice"
  | needlessValue => "error: a value is given to an option that takes none"
  | help => CommandLine.help

end CommandLine

end VectorDisplay
